import KinBridge.Lib.Readers
import KinBridge.Net.Parse

/-!
# Where the address readers end

None of the readers looks past a character that it does not read. So an address in brackets is
read as it would be on its own, and a port behind an IPv4 address is not taken for a part of it.
-/

namespace KinBridge

open Readers

variable {c : Char} {cs rest : List Char}

/-! ## Numbers -/

theorem takeWhile_stop {p : Char → Bool} (h : p c = false) :
    (cs ++ c :: rest).takeWhile p = cs.takeWhile p := by
  induction cs with
  | nil => simp [h]
  | cons x cs ih =>
      rw [List.cons_append, List.takeWhile_cons, List.takeWhile_cons, ih]

theorem dropWhile_stop {p : Char → Bool} (h : p c = false) :
    (cs ++ c :: rest).dropWhile p = cs.dropWhile p ++ c :: rest := by
  induction cs with
  | nil => simp [h]
  | cons x cs ih =>
      rw [List.cons_append, List.dropWhile_cons, List.dropWhile_cons, ih]
      split <;> rfl

theorem readNumber_leaves (radix : Nat) (maxDigits : Option Nat) (zeros : Bool) (bound : Nat) :
    Leaves (readNumber radix maxDigits zeros bound) := by
  intro cs n rest h
  unfold readNumber at h
  dsimp only at h
  repeat' split at h
  all_goals first
    | exact (Prod.mk.inj (Option.some.inj h)).2 ▸ List.dropWhile_suffix _
    | cases h

theorem readNumber_stops {radix : Nat} (maxDigits : Option Nat) (zeros : Bool) (bound : Nat)
    (h : toDigit radix c = none) : Stops c (readNumber radix maxDigits zeros bound) := by
  intro cs rest
  have hstop : (fun c => (toDigit radix c).isSome) c = false := by simp [h]
  unfold readNumber
  dsimp only
  rw [takeWhile_stop hstop, dropWhile_stop hstop]
  repeat' split
  all_goals rfl

theorem readChar_stops {d : Char} (h : c ≠ d) : Stops c (readChar d) := by
  intro cs rest
  cases cs with
  | nil => simp [readChar, h]
  | cons y cs =>
      simp only [readChar, List.cons_append]
      split <;> rfl

theorem readChar_eq {d : Char} {x : Unit} (h : readChar d cs = some (x, rest)) :
    cs = d :: rest := by
  cases cs with
  | nil => cases h
  | cons y cs =>
      simp only [readChar] at h
      split at h
      · rename_i hy
        obtain ⟨_, rfl⟩ := Prod.mk.inj (Option.some.inj h)
        rw [hy]
      · cases h

theorem readChar_leaves (d : Char) : Leaves (readChar d) := by
  intro cs x rest h
  exact readChar_eq h ▸ List.suffix_cons d rest

/-! ## IPv4 -/

theorem readOctet_leaves : Leaves readOctet := Leaves.map (readNumber_leaves _ _ _ _)

theorem readOctet_stops (h : toDigit 10 c = none) : Stops c readOctet :=
  (readNumber_stops _ _ _ h).map

theorem readDotOctet_leaves : Leaves readDotOctet :=
  (readChar_leaves '.').bind fun _ => readOctet_leaves

theorem readDotOctet_stops (h : toDigit 10 c = none) (hdot : c ≠ '.') : Stops c readDotOctet :=
  (readChar_stops hdot).bind fun _ => readOctet_stops h

theorem readIpv4_leaves : Leaves readIpv4 :=
  readOctet_leaves.bind fun a => readDotOctet_leaves.bind fun b => readDotOctet_leaves.bind fun d =>
    readDotOctet_leaves.map (g := fun e => (⟨a, b, d, e⟩ : Ipv4Addr))

theorem readIpv4_stops (h : toDigit 10 c = none) (hdot : c ≠ '.') : Stops c readIpv4 :=
  (readOctet_stops h).bind fun a => (readDotOctet_stops h hdot).bind fun b =>
    (readDotOctet_stops h hdot).bind fun d =>
      (readDotOctet_stops h hdot).map (g := fun e => (⟨a, b, d, e⟩ : Ipv4Addr))

/-! ## IPv6 -/

theorem readGroup_leaves : Leaves readGroup := Leaves.map (readNumber_leaves _ _ _ _)

theorem readGroup_stops (h : toDigit 16 c = none) : Stops c readGroup :=
  (readNumber_stops _ _ _ h).map

theorem readSeparator_leaves {first : Bool} {sep : List Char}
    (h : readSeparator first cs = some sep) : sep <:+ cs := by
  unfold readSeparator at h
  split at h
  · exact (Option.some.inj h) ▸ List.suffix_rfl
  · obtain ⟨⟨_, sep'⟩, hchar, rfl⟩ := Option.map_eq_some_iff.mp h
    exact readChar_leaves ':' cs _ _ hchar

theorem readSeparator_stops {first : Bool} (h : c ≠ ':') :
    readSeparator first (cs ++ c :: rest) = (readSeparator first cs).map (· ++ c :: rest) := by
  unfold readSeparator
  split
  · rfl
  · rw [readChar_stops h]
    cases readChar ':' cs <;> rfl

/-- The character is none that an address is made of. -/
def Stopper (c : Char) : Prop := toDigit 16 c = none ∧ c ≠ ':' ∧ c ≠ '.'

instance (c : Char) : Decidable (Stopper c) := inferInstanceAs (Decidable (_ ∧ _))

theorem toDigit_ten (h : toDigit 16 c = none) : toDigit 10 c = none := by
  grind [toDigit]

theorem readGroups_leaves (n : Nat) (first : Bool) (cs : List Char) :
    (readGroups n first cs).2.2 <:+ cs := by
  induction n generalizing first cs with
  | zero => exact List.suffix_rfl
  | succ n ih =>
      simp only [readGroups]
      split
      · rename_i v4 cs' hv4
        split at hv4
        · obtain ⟨sep, hsep, hread⟩ := Option.bind_eq_some_iff.mp hv4
          exact (readIpv4_leaves sep _ _ hread).trans (readSeparator_leaves hsep)
        · cases hv4
      · split
        · rename_i g cs' hgroup
          obtain ⟨sep, hsep, hread⟩ := Option.bind_eq_some_iff.mp hgroup
          exact ((ih false cs').trans (readGroup_leaves sep _ _ hread)).trans
            (readSeparator_leaves hsep)
        · exact List.suffix_rfl

theorem readGroups_stops (hc : Stopper c) (n : Nat) (first : Bool) (cs rest : List Char) :
    readGroups n first (cs ++ c :: rest) = ((readGroups n first cs).1, (readGroups n first cs).2.1,
      (readGroups n first cs).2.2 ++ c :: rest) := by
  obtain ⟨hdigit, hcolon, hdot⟩ := hc
  induction n generalizing first cs with
  | zero => rfl
  | succ n ih =>
      -- an IPv4 address is tried before a group, unless this is the last group
      have hv4 : (if 0 < n then (readSeparator first (cs ++ c :: rest)).bind readIpv4 else none)
          = (if 0 < n then (readSeparator first cs).bind readIpv4 else none).map
            fun x => (x.1, x.2 ++ c :: rest) := by
        split
        · rw [readSeparator_stops hcolon]
          cases readSeparator first cs with
          | none => rfl
          | some sep => exact readIpv4_stops (toDigit_ten hdigit) hdot sep rest
        · rfl
      have hgroup : (readSeparator first (cs ++ c :: rest)).bind readGroup
          = ((readSeparator first cs).bind readGroup).map fun x => (x.1, x.2 ++ c :: rest) := by
        rw [readSeparator_stops hcolon]
        cases readSeparator first cs with
        | none => rfl
        | some sep => exact readGroup_stops hdigit sep rest
      simp only [readGroups]
      rw [hv4, hgroup]
      cases (if 0 < n then (readSeparator first cs).bind readIpv4 else none) with
      | some x => rfl
      | none =>
          cases (readSeparator first cs).bind readGroup with
          | none => rfl
          | some x =>
              dsimp only [Option.map_none, Option.map_some]
              rw [ih]

theorem readIpv6_leaves : Leaves readIpv6 := by
  intro cs ip rest h
  simp only [readIpv6] at h
  have hhead := readGroups_leaves 8 true cs
  split at h
  · obtain ⟨_, rfl⟩ := Prod.mk.inj (Option.some.inj h)
    exact hhead
  · split at h
    · cases h
    · split at h
      · rename_i tail htail
        obtain ⟨_, rfl⟩ := Prod.mk.inj (Option.some.inj h)
        rw [htail] at hhead
        refine (readGroups_leaves _ true tail).trans (List.IsSuffix.trans ?_ hhead)
        exact ⟨[':', ':'], rfl⟩
      · cases h

theorem colons_front {mid tail : List Char} (hc : c ≠ ':')
    (h : mid ++ c :: rest = ':' :: ':' :: tail) :
    ∃ front, mid = ':' :: ':' :: front ∧ tail = front ++ c :: rest := by
  match mid, h with
  | [], h => exact absurd (List.cons.inj h).1 hc
  | [x], h => exact absurd (List.cons.inj (List.cons.inj h).2).1 hc
  | x :: y :: mid, h =>
      obtain ⟨hx, h⟩ := List.cons.inj h
      obtain ⟨hy, h⟩ := List.cons.inj h
      exact ⟨mid, by rw [hx, hy], h.symm⟩

theorem readIpv6_stops (hc : Stopper c) : Stops c readIpv6 := by
  intro cs rest
  simp only [readIpv6, readGroups_stops hc]
  generalize readGroups 8 true cs = head
  obtain ⟨head, v4, mid⟩ := head
  dsimp only
  split
  · rfl
  · split
    · rfl
    · -- whether it goes on with `::` is up to two characters, and `c` is neither
      split
      · rename_i tail' heq
        obtain ⟨tail, rfl, rfl⟩ := colons_front hc.2.1 heq
        split
        · rename_i tail'' heq'
          obtain rfl := (List.cons.inj (List.cons.inj heq').2).2
          rw [readGroups_stops hc]
          rfl
        · rename_i hno
          exact absurd rfl (hno tail)
      · rename_i hno
        split
        · rename_i tail
          exact absurd rfl (hno (tail ++ c :: rest))
        · rfl

/-! ## Ports and scope ids -/

theorem readPort_stops (h : toDigit 10 c = none) (hcolon : c ≠ ':') : Stops c readPort :=
  (readChar_stops hcolon).bind fun _ => (readNumber_stops _ _ _ h).map

/-- A port that ends a text is a colon and digits. -/
theorem readPort_whole {port : UInt16} (h : readPort cs = some (port, [])) :
    ∃ ds, cs = ':' :: ds ∧ ':' ∉ ds := by
  obtain ⟨⟨_, ds⟩, hcolon, hport⟩ := Option.bind_eq_some_iff.mp h
  obtain ⟨⟨n, rest⟩, hnumber, heq⟩ := Option.map_eq_some_iff.mp hport
  obtain ⟨_, rfl⟩ := Prod.mk.inj heq
  refine ⟨ds, ?_, ?_⟩
  · exact readChar_eq hcolon
  · intro hmem
    have hdrop : ds.dropWhile (fun c => (toDigit 10 c).isSome) = [] := by
      unfold readNumber at hnumber
      dsimp only at hnumber
      repeat' split at hnumber
      all_goals first
        | exact (Prod.mk.inj (Option.some.inj hnumber)).2
        | cases hnumber
    have hdigit := (List.dropWhile_eq_nil_iff.mp hdrop) ':' hmem
    exact absurd hdigit (by decide)

/-- A port does not go past a bracket. -/
theorem readPort_bracket {port : UInt16} : readPort (cs ++ ']' :: rest) ≠ some (port, []) := by
  intro h
  rw [readPort_stops (by decide) (by decide)] at h
  obtain ⟨_, _, heq⟩ := Option.map_eq_some_iff.mp h
  simp at heq

theorem skipScopeId_leaves (cs : List Char) : skipScopeId cs <:+ cs := by
  unfold skipScopeId
  split
  · rename_i mid hchar
    split
    · rename_i rest hnumber
      exact (readNumber_leaves _ _ _ _ mid _ rest hnumber).trans (readChar_leaves _ cs _ _ hchar)
    · exact List.suffix_rfl
  · exact List.suffix_rfl

theorem skipScopeId_stops (h : toDigit 10 c = none) (hpercent : c ≠ '%') :
    skipScopeId (cs ++ c :: rest) = skipScopeId cs ++ c :: rest := by
  unfold skipScopeId
  rw [readChar_stops hpercent]
  cases readChar '%' cs with
  | none => rfl
  | some x =>
      dsimp only [Option.map_some]
      rw [readNumber_stops none true (2 ^ 32) h]
      cases readNumber 10 none true (2 ^ 32) x.2 <;> rfl

/-! ## Socket addresses with port 0 -/

theorem readIpv4_dot {ip : Ipv4Addr} (h : readIpv4 cs = some (ip, rest)) : '.' ∈ cs := by
  obtain ⟨⟨a, mid⟩, hfirst, h⟩ := Option.bind_eq_some_iff.mp h
  obtain ⟨_, hsecond, _⟩ := Option.bind_eq_some_iff.mp h
  obtain ⟨_, hdot, _⟩ := Option.bind_eq_some_iff.mp hsecond
  refine (readOctet_leaves cs a mid hfirst).subset ?_
  rw [readChar_eq hdot]
  exact List.mem_cons_self

/-- A reader that is stopped at once. -/
theorem readIpv4_stopped (hc : Stopper c) : readIpv4 (c :: rest) = none :=
  readIpv4_stops (toDigit_ten hc.1) hc.2.2 [] rest

theorem readIpv6_stopped (hc : Stopper c) : readIpv6 (c :: rest) = none :=
  readIpv6_stops hc [] rest

/-- An IPv6 address fills the text, but for a scope id. -/
def ReadsV6 (cs : List Char) (ip : Ipv6Addr) : Prop :=
  ∃ rest, readIpv6 cs = some (ip, rest) ∧ skipScopeId rest = []

theorem readSocketAddr_bracket {w : List Char} {a : SocketAddr} :
    readSocketAddr ('[' :: (w ++ [']', ':', '0'])) = some (a, [])
      ↔ ∃ ip, ReadsV6 w ip ∧ a = ⟨.v6 ip, 0⟩ := by
  have hstop : Stopper ']' := by decide
  have hport : readPort [':', '0'] = some (0, []) := by decide
  unfold readSocketAddr
  rw [readIpv4_stopped (by decide)]
  dsimp only [Option.bind_none, readChar, if_true, Option.bind_some]
  rw [if_pos rfl, Option.bind_some, readIpv6_stops hstop]
  cases hread : readIpv6 w with
  | none => simp [ReadsV6, hread]
  | some x =>
      obtain ⟨ip, rest⟩ := x
      dsimp only [Option.map_some, Option.bind_some]
      rw [skipScopeId_stops (by decide) (by decide)]
      cases hskip : skipScopeId rest with
      | nil =>
          rw [List.nil_append]
          dsimp only [readChar]
          rw [if_pos rfl, Option.bind_some, hport]
          constructor
          · intro h
            obtain ⟨rfl, _⟩ := Prod.mk.inj (Option.some.inj h)
            exact ⟨ip, ⟨rest, hread, hskip⟩, rfl⟩
          · rintro ⟨ip', ⟨rest', hread', _⟩, rfl⟩
            obtain ⟨rfl, _⟩ := Prod.mk.inj (Option.some.inj (hread.symm.trans hread'))
            rfl
      | cons y z =>
          constructor
          · -- the bracket that is read is not the last one, and more than a port follows it
            intro h
            obtain ⟨⟨_, mid⟩, hbracket, h⟩ := Option.bind_eq_some_iff.mp h
            obtain ⟨⟨port, tail⟩, hmid, h⟩ := Option.map_eq_some_iff.mp h
            obtain ⟨_, rfl⟩ := Prod.mk.inj h
            dsimp only [readChar, List.cons_append] at hbracket
            split at hbracket
            · obtain ⟨_, rfl⟩ := Prod.mk.inj (Option.some.inj hbracket)
              exact absurd hmid readPort_bracket
            · cases hbracket
          · rintro ⟨ip', ⟨rest', hread', hskip'⟩, rfl⟩
            obtain ⟨_, rfl⟩ := Prod.mk.inj (Option.some.inj (hread.symm.trans hread'))
            rw [hskip] at hskip'
            cases hskip'

theorem append_colon_inj {a b x y : List Char} (h : a ++ ':' :: x = b ++ ':' :: y)
    (hx : ':' ∉ x) (hy : ':' ∉ y) : a = b ∧ x = y := by
  rcases List.append_eq_append_iff.mp h with ⟨l, hb, hl⟩ | ⟨l, ha, hl⟩
  · cases l with
    | nil => exact ⟨by simpa using hb.symm, (List.cons.inj hl).2⟩
    | cons z l =>
        obtain ⟨_, rfl⟩ := List.cons.inj hl
        exact absurd (by simp) hx
  · cases l with
    | nil => exact ⟨by simpa using ha, (List.cons.inj hl).2.symm⟩
    | cons z l =>
        obtain ⟨_, rfl⟩ := List.cons.inj hl
        exact absurd (by simp) hy

/-- A socket address begins with an IPv4 address, or has a bracket before its last colon. -/
theorem readSocketAddr_cases {a : SocketAddr} (h : readSocketAddr cs = some (a, [])) :
    (∃ ip rest, readIpv4 cs = some (ip, rest) ∧ readPort rest = some (a.port, []) ∧ a.ip = .v4 ip)
      ∨ ∃ w ds, cs = '[' :: (w ++ ']' :: ':' :: ds) ∧ ':' ∉ ds := by
  unfold readSocketAddr at h
  split at h
  · rename_i ip port rest hfour
    obtain ⟨⟨ip', mid⟩, hip, hport⟩ := Option.bind_eq_some_iff.mp hfour
    obtain ⟨⟨port', rest'⟩, hport, heq⟩ := Option.map_eq_some_iff.mp hport
    cases heq
    obtain ⟨rfl, rfl⟩ := Prod.mk.inj (Option.some.inj h)
    exact .inl ⟨ip, mid, hip, hport, rfl⟩
  · obtain ⟨⟨_, cs₁⟩, hopen, h⟩ := Option.bind_eq_some_iff.mp h
    obtain ⟨⟨ip, cs₂⟩, hip, h⟩ := Option.bind_eq_some_iff.mp h
    obtain ⟨⟨_, cs₃⟩, hclose, h⟩ := Option.bind_eq_some_iff.mp h
    obtain ⟨⟨port, cs₄⟩, hport, h⟩ := Option.map_eq_some_iff.mp h
    obtain ⟨_, rfl⟩ := Prod.mk.inj h
    obtain ⟨ds, rfl, hds⟩ := readPort_whole hport
    obtain ⟨w, hw⟩ := (skipScopeId_leaves cs₂).trans (readIpv6_leaves cs₁ ip cs₂ hip)
    refine .inr ⟨w, ds, ?_, hds⟩
    rw [readChar_eq hopen, ← hw, readChar_eq hclose]

/-- Behind an IPv4 address the port is read; otherwise the text had brackets of its own. -/
theorem readSocketAddr_plain {v : List Char} {a : SocketAddr} :
    readSocketAddr (v ++ [':', '0']) = some (a, [])
      ↔ (∃ ip, readIpv4 v = some (ip, []) ∧ a = ⟨.v4 ip, 0⟩)
        ∨ ∃ w ip, v = '[' :: (w ++ [']']) ∧ ReadsV6 w ip ∧ a = ⟨.v6 ip, 0⟩ := by
  have hport : readPort [':', '0'] = some (0, []) := by decide
  have hfour : readIpv4 (v ++ [':', '0']) = (readIpv4 v).map fun x => (x.1, x.2 ++ [':', '0']) :=
    readIpv4_stops (by decide) (by decide) v ['0']
  constructor
  · intro h
    rcases readSocketAddr_cases h with ⟨ip, rest, hip, hrest, haddr⟩ | ⟨w, ds, hv, hds⟩
    · rw [hfour] at hip
      obtain ⟨⟨ip', front⟩, hread, heq⟩ := Option.map_eq_some_iff.mp hip
      obtain ⟨rfl, rfl⟩ := Prod.mk.inj heq
      obtain ⟨ds, hwhole, hds⟩ := readPort_whole hrest
      obtain ⟨rfl, _⟩ := append_colon_inj (b := []) hwhole (by decide) hds
      obtain ⟨hzero, _⟩ := Prod.mk.inj (Option.some.inj (hport.symm.trans hrest))
      exact .inl ⟨ip', hread, by rw [hzero, ← haddr]⟩
    · have hsplit : v ++ ':' :: ['0'] = '[' :: (w ++ [']']) ++ ':' :: ds := by simpa using hv
      obtain ⟨rfl, rfl⟩ := append_colon_inj hsplit (by decide) hds
      rw [List.cons_append, List.append_assoc] at h
      obtain ⟨ip, hread, rfl⟩ := readSocketAddr_bracket.mp h
      exact .inr ⟨w, ip, rfl, hread, rfl⟩
  · rintro (⟨ip, hread, rfl⟩ | ⟨w, ip, rfl, hread, rfl⟩)
    · unfold readSocketAddr
      rw [hfour, hread, Option.map_some, Option.bind_some]
      dsimp only
      rw [List.nil_append, hport]
      rfl
    · rw [List.cons_append, List.append_assoc]
      exact readSocketAddr_bracket.mpr ⟨ip, hread, rfl⟩

end KinBridge
