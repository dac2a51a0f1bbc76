import KinBridge.Hbbs.Listing

/-!
# Pages of ten

A listing shows the ten entries from the number it is given. The end of the page is an `i32`, too:
for the last ten numbers it wraps, and the loop is over before it has begun. Below that the pages
are exact, and the multiples of ten go through a map once.
-/

namespace KinBridge.Proof

open KinBridge

variable {α ν : Type} {n : Int} {l : List α}

/-! ## One page -/

/-- The entries at the ten positions from `n` on, as many as there are. -/
def slice (n : Int) (l : List α) : List α := (l.drop n.toNat).take 10

theorem page_slice (h : n ≤ 2147483637) : page n l = slice n l := if_pos (by omega)

theorem page_past (h : 2147483637 < n) : page n l = [] := if_neg (by omega)

theorem slice_eq_nil : slice n l = [] ↔ l.length ≤ n.toNat := by
  simp [slice]

/-- A listing is exact if it need not go past the last page, or has nothing to show. -/
theorem listed_exact_iff (h : 0 ≤ n) (h' : n < 2 ^ 31) :
    listed n l = some (slice n l) ↔ n ≤ 2147483637 ∨ l.length ≤ n.toNat := by
  rw [listed_eq_page h h', Option.some_inj]
  by_cases hfits : n ≤ 2147483637
  · exact iff_of_true (page_slice hfits) (.inl hfits)
  · rw [page_past (by omega), eq_comm, slice_eq_nil]
    exact ⟨.inr, fun hor => hor.resolve_left hfits⟩

/-! ## All of them -/

/-- The pages at the multiples of ten that an `i32` can name, one after the other. -/
def pages (l : List α) : List α :=
  ((List.range 214748365).map fun j : Nat => (listed (10 * (j : Int)) l).getD []).flatten

theorem pages_upto {k : Nat} (h : k ≤ 214748364) :
    ((List.range k).map fun j : Nat => (listed (10 * (j : Int)) l).getD []).flatten
      = l.take (10 * k) := by
  induction k with
  | zero => simp
  | succ k ih =>
      have hpage : listed (10 * (k : Int)) l = some ((l.drop (10 * k)).take 10) := by
        rw [listed_eq_page (by omega) (by omega), page_slice (by omega)]
        rfl
      rw [List.range_succ, List.map_append, List.flatten_append, ih (by omega), List.map_singleton,
        hpage, Nat.mul_succ, List.take_add]
      simp

/-- **The pages together are the map**, if it has no more entries than they have places. -/
theorem pages_eq_iff : pages l = l ↔ l.length ≤ 2147483640 := by
  -- the last multiple of ten that an `i32` can name is past the last page
  have hlast : listed (10 * (214748364 : Nat)) l = some [] := by
    rw [listed_eq_page (by omega) (by omega), page_past (by omega)]
  have hall : pages l = l.take 2147483640 := by
    unfold pages
    rw [List.range_succ, List.map_append, List.flatten_append, pages_upto (Nat.le_refl _),
      List.map_singleton, hlast]
    simp
  rw [hall, List.take_eq_self_iff]

/-! ## The two commands -/

theorem parseI32_lt {s : String} (h : parseI32 s = some n) : n < 2 ^ 31 := by
  unfold parseI32 at h
  split at h
  · obtain ⟨m, hm, rfl⟩ := Option.map_eq_some_iff.mp h
    obtain ⟨k, _, hk⟩ := Option.bind_eq_some_iff.mp hm
    obtain rfl := Option.some.inj hk
    omega
  all_goals
    obtain ⟨m, hm, rfl⟩ := Option.map_eq_some_iff.mp h
    have hlt := of_decide_eq_true (Option.filter_eq_some_iff.mp hm).2
    exact Int.ofNat_lt.mpr hlt

theorem tableQuery_start {isKey : Int → Bool} {arg : String} {args : List String}
    (h : parseI32 arg = some n) : (tableQuery isKey (arg :: args)).start = n := by
  unfold tableQuery
  dsimp only
  rw [h, Option.getD_some]
  split <;> rfl

/-- The end of the page fits, and the answer is the number of entries, the one entry that was asked
for, if any, and the page. -/
structure PrintsPage (n : Int) (kept : HashMap String ν) (one : Option String) (line : ν → String)
    (out : HashMap String ν × String) : Prop where
  bound : n + 10 < 2 ^ 31
  printed : listed n out.1.entries = some (slice n out.1.entries)
  text : out.2 = toString kept.entries.length ++ "\n" ++ unlines one.toList
    ++ unlines ((slice n out.1.entries).map fun e => e.1 ++ ": " ++ line e.2)

theorem tableCmd_page_iff {m : HashMap String ν} {keep : ν → Bool} {q : TableQuery}
    {line : ν → String} (hq : q.start = n) (h : 0 ≤ n) (h' : n < 2 ^ 31) :
    PrintsPage n (m.retain keep) (q.key.bind fun key => ((m.retain keep).lookup key).map line) line
      (tableCmd m keep q line) ↔ n ≤ 2147483637 := by
  constructor
  · intro hprints
    have hbound := hprints.bound
    omega
  · intro hfits
    refine ⟨by omega, (listed_exact_iff h h').mpr (.inl hfits), ?_⟩
    unfold tableCmd
    dsimp only
    rw [hq, if_pos h, page_slice hfits]

/-- The entry that `ip-changes` shows first, if the number may be an id. -/
def shownFirst (kept : IpChanges) (now : Instant) (n : Int) (arg : String) : Option String :=
  if n ≤ 10000000 then none else (kept.lookup arg).map (changesLine now)

theorem ipBlockerArm_page_iff {m : IpBlocker} {now : Instant} {arg : String} {args : List String}
    (hn : parseI32 arg = some n) (h : 0 ≤ n) :
    PrintsPage n (m.retain fun e => StillCounts e now) none (blockerLine now)
      (ipBlockerArm m now (arg :: args)) ↔ n ≤ 2147483637 := by
  have hkey : (ipBlockerQuery (arg :: args)).key = none := by
    simp only [ipBlockerQuery, tableQuery, hn, Option.getD_some]
    rw [if_neg (by simpa using h)]
  have hstart : (ipBlockerQuery (arg :: args)).start = n := tableQuery_start hn
  have hpage := @tableCmd_page_iff _ _ m (fun e => StillCounts e now) _ (blockerLine now) hstart h
    (parseI32_lt hn)
  rw [hkey] at hpage
  exact hpage

theorem ipChangesArm_page_iff {m : IpChanges} {now : Instant} {arg : String} {args : List String}
    (hn : parseI32 arg = some n) (h : 0 ≤ n) :
    PrintsPage n (m.retain fun v => Shown now v)
      (shownFirst (m.retain fun v => Shown now v) now n arg) (changesLine now)
      (ipChangesArm m now (arg :: args)) ↔ n ≤ 2147483637 := by
  have hstart : (ipChangesQuery (arg :: args)).start = n := tableQuery_start hn
  have hpage := @tableCmd_page_iff _ _ m (fun v => Shown now v) _ (changesLine now) hstart h
    (parseI32_lt hn)
  unfold shownFirst
  by_cases hlimit : n ≤ 10000000
  · have hkey : (ipChangesQuery (arg :: args)).key = none := by
      simp [ipChangesQuery, tableQuery, hn, h, hlimit]
    rw [hkey] at hpage
    rw [if_pos hlimit]
    exact hpage
  · have hkey : (ipChangesQuery (arg :: args)).key = some arg := by
      simp [ipChangesQuery, tableQuery, hn, hlimit]
    rw [hkey] at hpage
    rw [if_neg hlimit]
    exact hpage

/--
**Paged listings are exact** exactly for the numbers whose page ends within an `i32`, whether the
number counts as an id or not, and the pages are the whole map exactly if it has no more entries
than such pages have places. The loop always ends.
-/
theorem paging_iff (n : Int) (h : 0 ≤ n) (h' : n < 2 ^ 31) :
    (∀ (m : IpBlocker) now arg args, parseI32 arg = some n →
      (PrintsPage n (m.retain fun e => StillCounts e now) none (blockerLine now)
        (ipBlockerArm m now (arg :: args)) ↔ n ≤ 2147483637))
    ∧ (∀ (m : IpChanges) now arg args, parseI32 arg = some n →
      (PrintsPage n (m.retain fun v => Shown now v)
        (shownFirst (m.retain fun v => Shown now v) now n arg) (changesLine now)
        (ipChangesArm m now (arg :: args)) ↔ n ≤ 2147483637))
    ∧ (∀ (α : Type) (l : List α), (∃ printed, listed n l = some printed)
      ∧ (listed n l = some (slice n l) ↔ n ≤ 2147483637 ∨ l.length ≤ n.toNat))
    ∧ ∀ (α : Type) (l : List α), pages l = l ↔ l.length ≤ 2147483640 :=
  ⟨fun _ _ _ _ hn => ipBlockerArm_page_iff hn h,
    fun _ _ _ _ hn => ipChangesArm_page_iff hn h,
    fun _ _ => ⟨⟨_, listed_eq_page h h'⟩, listed_exact_iff h h'⟩,
    fun _ _ => pages_eq_iff⟩

/-- A peer that was seen from two addresses. Its id is a number. -/
def twoAddresses : IpChanges :=
  AList.singleton "123456789" (0, ([⟨"10.0.0.1", 1⟩, ⟨"10.0.0.2", 2⟩] : List _).toAList)

theorem paging_two_addresses :
    PrintsPage 0 (HashMap.retain (∅ : IpBlocker) fun e => StillCounts e 0) none (blockerLine 0)
        (ipBlockerArm ∅ 0 ["0"])
      ∧ PrintsPage 123456789 (twoAddresses.retain fun v => Shown 0 v)
        (shownFirst (twoAddresses.retain fun v => Shown 0 v) 0 123456789 "123456789")
        (changesLine 0) (ipChangesArm twoAddresses 0 ["123456789"])
      ∧ listed 2 ["a", "b", "c"] = some (slice 2 ["a", "b", "c"])
      ∧ pages ["a", "b", "c"] = ["a", "b", "c"] := by
  obtain ⟨hblocker, _⟩ := paging_iff 0 (by decide) (by decide)
  obtain ⟨_, hchanges, _⟩ := paging_iff 123456789 (by decide) (by decide)
  obtain ⟨_, _, hlisted, hpages⟩ := paging_iff 2 (by decide) (by decide)
  exact ⟨(hblocker ∅ 0 "0" [] (by decide)).mpr (by decide),
    (hchanges twoAddresses 0 "123456789" [] (by decide)).mpr (by decide),
    (hlisted String _).2.mpr (by decide), (hpages String _).mpr (by decide)⟩

/-- **The end of a page wraps**: an entry at the position asked for is not shown. -/
theorem paging_wraps :
    parseI32 "2147483638" = some 2147483638 ∧ addI32 2147483638 10 = -2147483648
      ∧ listed 2147483638 (List.replicate 2147483639 "10.0.0.1") = some []
      ∧ slice 2147483638 (List.replicate 2147483639 "10.0.0.1") = ["10.0.0.1"]
      ∧ ¬ PrintsPage 2147483638 (twoAddresses.retain fun v => Shown 0 v)
        (shownFirst (twoAddresses.retain fun v => Shown 0 v) 0 2147483638 "2147483638")
        (changesLine 0) (ipChangesArm twoAddresses 0 ["2147483638"]) := by
  refine ⟨by decide, by decide, ?_, ?_, ?_⟩
  · rw [listed_eq_page (by decide) (by decide), page_past (by decide)]
  · rw [slice, List.drop_replicate, List.take_replicate]
    rfl
  · intro hprints
    have hbound := hprints.bound
    omega

end KinBridge.Proof
