import KinBridge.Hbbs.Server

/-!
# The server key

`gen_sk` of `common.rs` reads the secret key from `id_ed25519`, or makes a pair of keys and
stores it in `id_ed25519.pub` and `id_ed25519`. Both programs call it when their key is `-`
or `_`, `hbbr` after a short wait if the file is not there.

Every file operation may fail, and a failing write may have written a part. Here `gen_sk`
runs alone; `KinBridge.Keys.Race` takes it apart at every operation. What it gets from
outside the repository is a parameter: the `base64` crate, and the key pairs that
`sign::gen_keypair` draws.
-/

namespace KinBridge.Keys

open KinBridge

/-! ## Text -/

/-- The `base64` crate, standard alphabet. -/
structure Codec where
  encode : Bytes → String
  decode : String → Option Bytes

/-- `char::is_whitespace`. -/
def isWhitespace (c : Char) : Bool :=
  let n := c.toNat
  (9 ≤ n && n ≤ 13) || n == 32 || n == 0x85 || n == 0xa0 || n == 0x1680
    || (0x2000 ≤ n && n ≤ 0x200a) || n == 0x2028 || n == 0x2029 || n == 0x202f || n == 0x205f
    || n == 0x3000

/-- `str::trim`. -/
def trim (s : String) : String :=
  String.ofList ((s.toList.dropWhile isWhitespace).reverse.dropWhile isWhitespace).reverse

/-- `str::as_bytes`. -/
def asBytes (s : String) : Bytes := s.toUTF8.data.toList

/-- `read_to_string`, once the bytes are there: they have to be UTF-8. -/
def ofUtf8 (bytes : Bytes) : Option String := String.fromUTF8? ⟨bytes.toArray⟩

/-- What the code relies on in the `base64` crate. -/
structure Codec.Lawful (B : Codec) : Prop where
  decode_encode : ∀ b, B.decode (B.encode b) = some b
  decode_empty : B.decode "" = some []
  /-- `-` and `_` are not in the alphabet. -/
  decode_dash : B.decode "-" = none ∧ B.decode "_" = none
  /-- White space is not either. -/
  clean : ∀ b, ∀ c ∈ (B.encode b).toList, isWhitespace c = false

/-! ## `gen_sk` -/

/-- `sign::gen_keypair`: the secret key ends with the public one. -/
structure Keypair where
  pk : Bytes
  sk : SecretKey
  half : sk.val.drop 32 = pk

/-- The contents of `id_ed25519` and `id_ed25519.pub`. -/
structure Files where
  sk : Option Bytes
  pub : Option Bytes
deriving DecidableEq, Repr

inductive GenResult where
  | returned (pk : String) (sk : Option SecretKey)
  /-- `process::exit(1)`: malformed private key. -/
  | exited
deriving DecidableEq

/-- The key that a program has of `gen_sk`, if it goes on. -/
def GenResult.serverKey : GenResult → Option String
  | .returned pk _ => some pk
  | .exited => none

/-- What the calls of `gen_sk` meet. `writePub` and `writeSk` say after how many bytes the write
fails, if it does. -/
structure GenIo where
  openOk : Bool
  readOk : Bool
  createPubOk : Bool
  writePub : Option Nat
  createSkOk : Bool
  writeSk : Option Nat
  draw : Nat → Keypair

variable (B : Codec)

/-- What becomes of the contents of `id_ed25519`. -/
def parseKey (contents : String) : GenResult :=
  let sk := (B.decode (trim contents)).getD []
  if h : sk.length = 64 then .returned (B.encode (sk.drop 32)) (some ⟨sk, h⟩) else .exited

/-- The file is open and its bytes are read; if they are not UTF-8, `gen_sk` falls through. -/
def readKey (bytes : Bytes) : GenResult :=
  match ofUtf8 bytes with
  | some contents => parseKey B contents
  | none => .returned "" none

/-- The public key text suits a file name and a URL. -/
def suits (pk : String) : Bool := !pk.toList.contains '/' && !pk.toList.contains ':'

/-- Draws from the `i`-th on, the last of `n` more unseen. -/
def drawKey (draw : Nat → Keypair) : Nat → Nat → Keypair
  | 0, i => draw i
  | n + 1, i => if suits (B.encode (draw i).pk) then draw i else drawKey draw n (i + 1)

/-- `write_all` at the start of a file. -/
def overwrite (text old : Bytes) : Bytes := text ++ old.drop text.length

/-- What a write leaves of a new file. -/
def written (fails : Option Nat) (text : Bytes) : Bytes :=
  match fails with
  | none => overwrite text []
  | some n => overwrite (text.take n) []

/-- `id_ed25519` opens. -/
def Files.opens (f : Files) (io : GenIo) : Option Bytes := if io.openOk then f.sk else none

/-- `gen_sk`. (A wait changes nothing here: nobody else is at the files.) -/
def genSk (f : Files) (io : GenIo) : Files × GenResult :=
  match f.opens io with
  | some bytes => (f, if io.readOk then readKey B bytes else .returned "" none)
  | none =>
    let kp := drawKey B io.draw 300 0
    let pk := B.encode kp.pk
    if io.createPubOk then
      let f := { f with pub := some (written io.writePub (asBytes pk)) }
      if io.createSkOk then
        let f := { f with sk := some (written io.writeSk (asBytes (B.encode kp.sk.val))) }
        if io.writeSk = none then (f, .returned pk (some kp.sk)) else (f, .returned "" none)
      else (f, .returned "" none)
    else (f, .returned "" none)

/-! ## `get_server_sk` -/

/-- The key argument may itself be a secret key. -/
def keyArg (key : String) : String × Option SecretKey :=
  match B.decode key with
  | some sk => if h : sk.length = 64 then (B.encode (sk.drop 32), some ⟨sk, h⟩) else (key, none)
  | none => (key, none)

/-- `RendezvousServer::get_server_sk`; nothing if the process exits. -/
def hbbsServerSk (key : String) (f : Files) (io : GenIo) :
    Files × Option (String × Option SecretKey) :=
  let (key, outSk) := keyArg B key
  if key = "" ∨ key = "-" ∨ key = "_" then
    match genSk B f io with
    | (f, .returned pk sk) => (f, some (if key ≠ "" then pk else key, sk))
    | (f, .exited) => (f, none)
  else (f, some (key, outSk))

/-- `get_server_sk` of `relay_server.rs`; nothing if the process exits. -/
def hbbrServerSk (key : String) (f : Files) (io : GenIo) : Files × Option String :=
  let (key, _) := keyArg B key
  if key = "-" ∨ key = "_" then
    match genSk B f io with
    | (f, .returned pk _) => (f, some pk)
    | (f, .exited) => (f, none)
  else (f, some key)

/-! ## Texts and their bytes -/

variable {B}

@[simp] theorem ofUtf8_asBytes (s : String) : ofUtf8 (asBytes s) = some s := by
  simp only [ofUtf8, asBytes, Array.toArray_toList, String.toUTF8_eq_toByteArray, String.fromUTF8?]
  exact dif_pos s.isValidUTF8

theorem dropWhile_clean {l : List Char} (h : ∀ c ∈ l, isWhitespace c = false) :
    l.dropWhile isWhitespace = l := by
  cases l with
  | nil => rfl
  | cons c l =>
      rw [List.dropWhile_cons_of_neg]
      rw [h c List.mem_cons_self]
      decide

/-- A text without white space is its own trimmed form. -/
theorem trim_clean {s : String} (h : ∀ c ∈ s.toList, isWhitespace c = false) : trim s = s := by
  have hrev : ∀ c ∈ s.toList.reverse, isWhitespace c = false :=
    fun c hc => h c (List.mem_reverse.mp hc)
  rw [trim, dropWhile_clean h, dropWhile_clean hrev, List.reverse_reverse, String.ofList_toList]

@[simp] theorem overwrite_nil (text : Bytes) : overwrite text [] = text := by
  rw [overwrite, List.drop_nil, List.append_nil]

/-- Only the empty string encodes to nothing. -/
theorem Codec.Lawful.encode_ne (hB : B.Lawful) {b : Bytes} (h : b ≠ []) : B.encode b ≠ "" := by
  intro hempty
  have hdecode := hB.decode_encode b
  rw [hempty, hB.decode_empty] at hdecode
  exact h (Option.some.inj hdecode).symm

/-- A stored secret key is read back, with its public half. -/
theorem readKey_encode (hB : B.Lawful) (sk : SecretKey) :
    readKey B (asBytes (B.encode sk.val)) = .returned (B.encode (sk.val.drop 32)) (some sk) := by
  have hdecode : (B.decode (trim (B.encode sk.val))).getD [] = sk.val := by
    rw [trim_clean (hB.clean sk.val), hB.decode_encode, Option.getD_some]
  have hlen : ((B.decode (trim (B.encode sk.val))).getD []).length = 64 := by
    rw [hdecode]
    exact sk.property
  unfold readKey
  rw [ofUtf8_asBytes]
  unfold parseKey
  dsimp only
  rw [dif_pos hlen]
  simp only [hdecode]

/-- A file without contents is malformed. -/
theorem readKey_nil (hB : B.Lawful) : readKey B [] = .exited := by
  have hread : ofUtf8 [] = some "" := ofUtf8_asBytes ""
  have hdecode : B.decode (trim "") = some [] := hB.decode_empty
  unfold readKey
  rw [hread]
  unfold parseKey
  dsimp only
  rw [hdecode]
  rfl

theorem half_ne_nil (sk : SecretKey) : sk.val.drop 32 ≠ [] := by
  intro h
  have hlen := congrArg List.length h
  rw [List.length_drop, sk.property] at hlen
  cases hlen

/-! ## The keys `-` and `_` -/

/-- The key argument is neither a secret key nor empty. -/
theorem keyArg_dash (hB : B.Lawful) {key : String} (hkey : key = "-" ∨ key = "_") :
    keyArg B key = (key, none) := by
  unfold keyArg
  rcases hkey with rfl | rfl
  · rw [hB.decode_dash.1]
  · rw [hB.decode_dash.2]

/-- `hbbs` has the key of `gen_sk`. -/
theorem hbbsServerSk_dash (hB : B.Lawful) {key : String} (hkey : key = "-" ∨ key = "_") (f : Files)
    (io : GenIo) : (hbbsServerSk B key f io).2.map Prod.fst = (genSk B f io).2.serverKey := by
  have hne : key ≠ "" := by rcases hkey with rfl | rfl <;> decide
  unfold hbbsServerSk
  rw [keyArg_dash hB hkey]
  dsimp only
  rw [if_pos (.inr hkey)]
  generalize genSk B f io = r
  obtain ⟨f', res⟩ := r
  cases res with
  | returned pk sk => simp [hne, GenResult.serverKey]
  | exited => rfl

/-- And so has `hbbr`. -/
theorem hbbrServerSk_dash (hB : B.Lawful) {key : String} (hkey : key = "-" ∨ key = "_") (f : Files)
    (io : GenIo) : (hbbrServerSk B key f io).2 = (genSk B f io).2.serverKey := by
  unfold hbbrServerSk
  rw [keyArg_dash hB hkey]
  dsimp only
  rw [if_pos hkey]
  generalize genSk B f io = r
  obtain ⟨f', res⟩ := r
  cases res with
  | returned pk sk => rfl
  | exited => rfl

end KinBridge.Keys
