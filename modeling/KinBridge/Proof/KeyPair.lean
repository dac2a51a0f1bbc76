import Mathlib.Algebra.Order.BigOperators.Group.List
import Mathlib.Algebra.Order.Group.Nat
import KinBridge.Net.Loopback
import KinBridge.Proof.Keys

/-!
# Whether the key files stay a pair

`gen_sk` stores the public key first and the secret key second, and whatever fails in between
stays as it is: a public key alone, or half of one. And a secret key that is there but does
not open is taken for one that is not there: its public key is written over.
-/

namespace KinBridge.Keys

open KinBridge

variable {B : Codec} {f : Files} {io : GenIo}

/-- The size of an encoding depends on the size of what is encoded alone. -/
structure Codec.Sized (B : Codec) : Prop where
  size : ∀ b b', b.length = b'.length → (B.encode b).utf8ByteSize = (B.encode b').utf8ByteSize

/-- One file reads as a secret key, and the other says its public half. -/
def IsPair (B : Codec) (sk pub : Bytes) : Prop :=
  ∃ pk key, readKey B sk = .returned pk (some key) ∧ (ofUtf8 pub).map trim = some pk

/-- Both files are absent, or a pair. -/
def Matched (B : Codec) (f : Files) : Prop :=
  f = ⟨none, none⟩ ∨ ∃ sk pub, f = ⟨some sk, some pub⟩ ∧ IsPair B sk pub

/-- After `gen_sk` they are so again, and a pair that was there is the same. -/
def StaysPair (B : Codec) (f : Files) (io : GenIo) : Prop :=
  Matched B (genSk B f io).1 ∧ (f.sk.isSome → (genSk B f io).1 = f)

/-- The secret key opens, or nothing is written at all. Where there is no secret key, the public
key is written whole, the other file is created, and what is written of the secret key reads as
one with this public half. Where there is one, what is written is what was there. -/
def StoresPair (B : Codec) (f : Files) (io : GenIo) : Prop :=
  let kp := drawKey B io.draw 300 0
  let pub := asBytes (B.encode kp.pk)
  let sk := asBytes (B.encode kp.sk.val)
  (f.opens io).isSome ∨ io.createPubOk = false ∨
    match f.sk with
    | none => io.createSkOk = true ∧ (∀ n ∈ io.writePub, pub.length ≤ n)
      ∧ ∃ key, readKey B (written io.writeSk sk) = .returned (B.encode kp.pk) (some key)
    | some old => f.pub = some (written io.writePub pub)
      ∧ (io.createSkOk = true → old = written io.writeSk sk)

/-! ## Sizes -/

theorem utf8ByteSize_trim (s : String) : (trim s).utf8ByteSize ≤ s.utf8ByteSize := by
  have hsub : (((s.toList.dropWhile isWhitespace).reverse.dropWhile isWhitespace).reverse).Sublist
      s.toList := by
    have hback := (List.dropWhile_sublist (l := (s.toList.dropWhile isWhitespace).reverse)
      isWhitespace).reverse
    rw [List.reverse_reverse] at hback
    exact hback.trans (List.dropWhile_sublist isWhitespace)
  have hsum := (hsub.map Char.utf8Size).sum_le_sum fun _ _ => Nat.zero_le _
  rw [← Base64.utf8ByteSize_ofList, ← Base64.utf8ByteSize_ofList, String.ofList_toList] at hsum
  exact hsum

theorem written_some (n : Nat) (text : Bytes) : written (some n) text = text.take n :=
  overwrite_nil _

theorem written_none (text : Bytes) : written none text = text := overwrite_nil text

/-- A key that is read is returned with its public half. -/
theorem readKey_some {bytes : Bytes} {pk : String} {key : SecretKey}
    (h : readKey B bytes = .returned pk (some key)) : pk = B.encode (key.val.drop 32) := by
  unfold readKey at h
  split at h
  · unfold parseKey at h
    dsimp only at h
    split at h
    · obtain ⟨rfl, hkey⟩ := GenResult.returned.inj h
      rw [← Option.some.inj hkey]
    · cases h
  · cases (GenResult.returned.inj h).2

/-- Of a public key that was not written whole, no secret key has what is there. -/
theorem isPair_written (hB : B.Lawful) (hsize : B.Sized) (kp : Keypair) (sk : Bytes)
    (fails : Option Nat) :
    IsPair B sk (written fails (asBytes (B.encode kp.pk))) ↔
      (∀ n ∈ fails, (asBytes (B.encode kp.pk)).length ≤ n)
        ∧ ∃ key, readKey B sk = .returned (B.encode kp.pk) (some key) := by
  have htrim : trim (B.encode kp.pk) = B.encode kp.pk := trim_clean (hB.clean kp.pk)
  have hlen : ∀ key : SecretKey, (key.val.drop 32).length = kp.pk.length := by
    intro key
    rw [← kp.half, List.length_drop, List.length_drop, key.property, kp.sk.property]
  constructor
  · rintro ⟨pk, key, hread, hpub⟩
    obtain ⟨text, htext, rfl⟩ := Option.map_eq_some_iff.mp hpub
    have hpart := asBytes_ofUtf8 htext
    -- a public key is as long as any other
    have hsame : (trim text).utf8ByteSize = (B.encode kp.pk).utf8ByteSize := by
      rw [readKey_some hread]
      exact hsize.size _ _ (hlen key)
    have hle : (asBytes (B.encode kp.pk)).length ≤ (asBytes text).length := by
      rw [length_asBytes, length_asBytes, ← hsame]
      exact utf8ByteSize_trim text
    have hwhole : ∀ n ∈ fails, (asBytes (B.encode kp.pk)).length ≤ n := by
      rintro n rfl
      rw [hpart, written_some, List.length_take] at hle
      exact Nat.le_trans hle (Nat.min_le_left ..)
    refine ⟨hwhole, key, ?_⟩
    have hfull : asBytes text = asBytes (B.encode kp.pk) := by
      rw [hpart]
      cases fails with
      | none => exact written_none _
      | some n => rw [written_some, List.take_of_length_le (hwhole n rfl)]
    have heq := congrArg ofUtf8 hfull
    rw [ofUtf8_asBytes, ofUtf8_asBytes] at heq
    rw [hread, Option.some.inj heq, htrim]
  · rintro ⟨hwhole, key, hread⟩
    have hfull : written fails (asBytes (B.encode kp.pk)) = asBytes (B.encode kp.pk) := by
      cases fails with
      | none => exact written_none _
      | some n => rw [written_some, List.take_of_length_le (hwhole n rfl)]
    exact ⟨_, key, hread, by rw [hfull, ofUtf8_asBytes, Option.map_some, htrim]⟩

/-! ## The files -/

theorem matched_pair {sk pub : Bytes} : Matched B ⟨some sk, some pub⟩ ↔ IsPair B sk pub := by
  simp [Matched]

theorem not_matched_pub {pub : Bytes} : ¬ Matched B ⟨none, some pub⟩ := by
  simp [Matched]

/-- What becomes of the files, once the public key's is created. -/
theorem genSk_files (hopen : f.opens io = none) (hpub : io.createPubOk = true) :
    (genSk B f io).1 = ⟨if io.createSkOk then
        some (written io.writeSk (asBytes (B.encode (drawKey B io.draw 300 0).sk.val))) else f.sk,
      some (written io.writePub (asBytes (B.encode (drawKey B io.draw 300 0).pk)))⟩ := by
  unfold genSk
  rw [hopen]
  dsimp only
  rw [if_pos hpub]
  cases io.createSkOk with
  | false => rfl
  | true => cases io.writeSk <;> rfl

/-- **The key files stay a pair** exactly if a pair is stored. -/
theorem stays_pair_iff (hB : B.Lawful) (hsize : B.Sized) (hf : Matched B f) :
    StaysPair B f io ↔ StoresPair B f io := by
  have hkept : (genSk B f io).1 = f → StaysPair B f io := fun h => ⟨h.symm ▸ hf, fun _ => h⟩
  unfold StoresPair
  dsimp only
  cases hopen : f.opens io with
  | some bytes =>
      refine iff_of_true (hkept ?_) (.inl rfl)
      unfold genSk
      rw [hopen]
  | none =>
      cases hpub : io.createPubOk with
      | false =>
          refine iff_of_true (hkept ?_) (.inr (.inl rfl))
          unfold genSk
          simp [hopen, hpub]
      | true =>
          have hfiles := genSk_files (B := B) hopen hpub
          have hcond : ∀ {P : Prop},
              (none : Option Bytes).isSome = true ∨ true = false ∨ P ↔ P := by simp
          rw [hcond]
          unfold StaysPair
          rw [hfiles]
          rcases hf with rfl | ⟨sk, pub, rfl, hpair⟩
          · -- no files: a public key is there now, so a secret key has to be
            dsimp only
            cases io.createSkOk with
            | false => exact iff_of_false (fun h => not_matched_pub h.1) (by simp)
            | true =>
                rw [if_pos rfl, matched_pair, isPair_written hB hsize]
                simp
          · -- a pair: what was written over it has to be the same
            dsimp only
            cases io.createSkOk with
            | false =>
                rw [if_neg (by decide), matched_pair]
                constructor
                · rintro ⟨_, hsame⟩
                  exact ⟨(Files.mk.inj (hsame rfl)).2.symm, nofun⟩
                · rintro ⟨hpub, _⟩
                  rw [← Option.some.inj hpub]
                  exact ⟨hpair, fun _ => rfl⟩
            | true =>
                rw [if_pos rfl, matched_pair]
                constructor
                · rintro ⟨_, hsame⟩
                  obtain ⟨hsk, hpub⟩ := Files.mk.inj (hsame rfl)
                  exact ⟨hpub.symm, fun _ => (Option.some.inj hsk).symm⟩
                · rintro ⟨hpub, hsk⟩
                  rw [← hsk rfl, ← Option.some.inj hpub]
                  exact ⟨hpair, fun _ => rfl⟩

/-- Without files, and with nothing failing, a pair is stored. -/
theorem stays_pair_fresh : StaysPair .sample ⟨none, none⟩ (.sample 7) := by
  have hsized : Codec.sample.Sized := ⟨fun b b' hlen => by
    show (Base64.encode b).utf8ByteSize = (Base64.encode b').utf8ByteSize
    rw [Base64.utf8ByteSize_encode, Base64.utf8ByteSize_encode, hlen]⟩
  have hdraw : drawKey .sample (GenIo.sample 7).draw 300 0 = .sample 7 := by
    rw [drawKey, if_pos (by decide +kernel)]
    rfl
  have hstores : StoresPair .sample ⟨none, none⟩ (.sample 7) := by
    unfold StoresPair
    rw [hdraw]
    refine .inr (.inr ⟨rfl, nofun, (Keypair.sample 7).sk, ?_⟩)
    dsimp only [GenIo.sample]
    rw [written_none, ← (Keypair.sample 7).half]
    exact readKey_encode sample_lawful _
  exact (stays_pair_iff sample_lawful hsized (.inl rfl)).mpr hstores

/-- **Half a pair is left** if the secret key's file cannot be created: the next start of the
container takes it for a private key that is missing. -/
theorem half_pair : Matched .sample ⟨none, none⟩
    ∧ (genSk .sample ⟨none, none⟩ { GenIo.sample 7 with createSkOk := false }).1
      = ⟨none, some (asBytes "BwcHBwcHBwcHBwcHBwcHBwcHBwcHBwcHBwcHBwcHBwc=")⟩
    ∧ ¬ StaysPair .sample ⟨none, none⟩ { GenIo.sample 7 with createSkOk := false } := by
  have hfiles : (genSk .sample ⟨none, none⟩ { GenIo.sample 7 with createSkOk := false }).1
      = ⟨none, some (asBytes "BwcHBwcHBwcHBwcHBwcHBwcHBwcHBwcHBwcHBwcHBwc=")⟩ := by
    decide +kernel
  refine ⟨.inl rfl, hfiles, fun h => ?_⟩
  have hmatched := h.1
  rw [hfiles] at hmatched
  exact not_matched_pub hmatched

end KinBridge.Keys
