import KinBridge.Keys.GenSk
import KinBridge.Lib.Base64

/-!
# The key fails open

With the key `-` or `_` a program should run with a key or not at all, since an empty key
turns the licence checks off. A malformed key file does end the process. Every other failure
falls through to the end of `gen_sk`, which returns an empty key, and both callers take that
as "no key".
-/

namespace KinBridge.Keys

open KinBridge

variable {B : Codec}

/-- There is a key, or no program. -/
def FailsClosed (key : Option String) : Prop := ∀ k, key = some k → k ≠ ""

/-- If `id_ed25519` opens, it can be read and is UTF-8; if it does not, both files can be created
and the secret key can be written. The write of the public key does not matter. -/
def KeySurvives (f : Files) (io : GenIo) : Prop :=
  match f.opens io with
  | some bytes => io.readOk = true ∧ (ofUtf8 bytes).isSome
  | none => io.createPubOk = true ∧ io.createSkOk = true ∧ io.writeSk = none

/-- A key file that is UTF-8 gives a key or ends the process. -/
theorem parseKey_ne (hB : B.Lawful) {contents : String} {sk : Option SecretKey} :
    parseKey B contents ≠ .returned "" sk := by
  intro h
  unfold parseKey at h
  dsimp only at h
  split at h
  · rename_i hlen
    exact hB.encode_ne (half_ne_nil ⟨_, hlen⟩) (GenResult.returned.inj h).1
  · cases h

/-- **`gen_sk` returns no empty key** exactly if the key survives. -/
theorem genSk_empty (hB : B.Lawful) (f : Files) (io : GenIo) :
    (∀ pk sk, (genSk B f io).2 = .returned pk sk → pk ≠ "") ↔ KeySurvives f io := by
  have hdrawn : B.encode (drawKey B io.draw 300 0).pk ≠ "" := by
    rw [← (drawKey B io.draw 300 0).half]
    exact hB.encode_ne (half_ne_nil _)
  have hempty : ∀ sk, ¬ ∀ pk sk', GenResult.returned "" sk = .returned pk sk' → pk ≠ "" :=
    fun sk h => h "" sk rfl rfl
  unfold genSk KeySurvives
  cases f.opens io with
  | some bytes =>
      dsimp only
      cases io.readOk with
      -- `read_to_string` fails, and nothing is done about it
      | false => exact iff_of_false (hempty none) (by simp)
      | true =>
          unfold readKey
          cases hutf : ofUtf8 bytes with
          | none => exact iff_of_false (hempty none) (by simp)
          | some contents =>
              refine iff_of_true ?_ ⟨rfl, rfl⟩
              intro pk sk hres hpk
              subst hpk
              exact parseKey_ne hB hres
  | none =>
      dsimp only
      cases io.createPubOk with
      | false => exact iff_of_false (hempty none) (by simp)
      | true =>
          cases io.createSkOk with
          | false => exact iff_of_false (hempty none) (by simp)
          | true =>
              cases hwrite : io.writeSk with
              -- the new key is lost, though its file is there
              | some n => exact iff_of_false (hempty none) (by simp)
              | none =>
                  refine iff_of_true ?_ ⟨rfl, rfl, rfl⟩
                  intro pk sk hres
                  rw [← (GenResult.returned.inj hres).1]
                  exact hdrawn

theorem failsClosed_gen (res : GenResult) :
    FailsClosed res.serverKey ↔ ∀ pk sk, res = .returned pk sk → pk ≠ "" := by
  unfold FailsClosed
  cases res with
  | returned pk sk => simp [GenResult.serverKey]
  | exited => simp [GenResult.serverKey]

/--
**The key fails closed exactly if it survives**, in both programs, for every state of the files
and every pattern of failures: what is lost is a key file that opens but cannot be read as
text, and a new secret key that cannot be stored.
-/
theorem serverKey_closed_iff (hB : B.Lawful) {key : String} (hkey : key = "-" ∨ key = "_")
    (f : Files) (io : GenIo) :
    (FailsClosed ((hbbsServerSk B key f io).2.map Prod.fst) ↔ KeySurvives f io)
      ∧ (FailsClosed (hbbrServerSk B key f io).2 ↔ KeySurvives f io) := by
  have hgen := (failsClosed_gen (genSk B f io).2).trans (genSk_empty hB f io)
  rw [hbbsServerSk_dash hB hkey, hbbrServerSk_dash hB hkey]
  exact ⟨hgen, hgen⟩

/-! ### A codec, and a file that is no text -/

def Codec.sample : Codec := ⟨Base64.encode, Base64.decode⟩

theorem sample_lawful : Codec.sample.Lawful where
  decode_encode := Base64.decode_encode
  decode_empty := rfl
  decode_dash := ⟨by decide, by decide⟩
  clean := by
    intro b c hc
    have hall : ('=' :: Base64.alphabet).all (fun c => !isWhitespace c) = true := by decide
    have hclean := List.all_eq_true.mp hall c (List.mem_cons.mpr (Base64.mem_encode hc))
    simpa using hclean

/-- A key pair of one byte all over. -/
def Keypair.sample (n : UInt8) : Keypair where
  pk := List.replicate 32 n
  sk := ⟨List.replicate 64 n, by rw [List.length_replicate]⟩
  half := by simp

/-- Nothing fails, and every draw gives this pair. -/
def GenIo.sample (n : UInt8) : GenIo where
  openOk := true
  readOk := true
  createPubOk := true
  writePub := none
  createSkOk := true
  writeSk := none
  draw _ := .sample n

/-- Without files, and with nothing failing, there is a key. -/
theorem serverKey_closed_fresh :
    FailsClosed ((hbbsServerSk .sample "-" ⟨none, none⟩ (.sample 7)).2.map Prod.fst)
      ∧ FailsClosed (hbbrServerSk .sample "-" ⟨none, none⟩ (.sample 7)).2 := by
  have hsurvives : KeySurvives ⟨none, none⟩ (.sample 7) := ⟨rfl, rfl, rfl⟩
  obtain ⟨hbbs, hbbr⟩ := serverKey_closed_iff sample_lawful (.inl rfl) ⟨none, none⟩ (.sample 7)
  exact ⟨hbbs.mpr hsurvives, hbbr.mpr hsurvives⟩

/-- **A key file that is not UTF-8 turns the checks off**: nothing fails, and the key is empty. -/
theorem serverKey_open :
    ¬ ∀ key f io, key = "-" ∨ key = "_" →
      FailsClosed ((hbbsServerSk .sample key f io).2.map Prod.fst)
        ∧ FailsClosed (hbbrServerSk .sample key f io).2 := by
  intro hall
  obtain ⟨hbbs, _⟩ := hall "-" ⟨some [0xff], none⟩ (.sample 7) (.inl rfl)
  exact hbbs "" (by decide) rfl

end KinBridge.Keys
