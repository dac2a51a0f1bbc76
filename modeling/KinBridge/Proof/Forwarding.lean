import KinBridge.Hbbr.Relay

/-!
# Nothing lost, nothing doubled, nothing crossed

Whatever wakes the loop, in whatever order, what it has handed to one end is what it has
received from the other, byte for byte. A turn hands over all that it took in before it
looks at clocks and lists, so none of its exits loses anything, except a send that fails,
which loses the chunk it was given and stops the loop.
-/

namespace KinBridge.Hbbr

open KinBridge Runs

/-- The payload that a turn receives from this end. -/
def Turn.payload (t : Turn) (side : Side) : Bytes :=
  match t.wake with
  | .received s item => if s = side then item.payload else []
  | .tick => []

/-- Everything received from this end, in order. -/
def received (side : Side) (h : List (Occ RelayState Turn (List RelayAct))) : Bytes :=
  h.flatMap fun o => o.ev.payload side

/-- The chunks given to `send_raw` of this end, by what it returned. -/
def chunksSent (ok : Bool) (side : Side) (acts : List RelayAct) : List Bytes :=
  (sends acts).filterMap fun c => if c.1 = side ∧ c.2.2 = ok then some c.2.1 else none

/-- Everything handed to this end, in order. -/
def handed (side : Side) (h : List (Occ RelayState Turn (List RelayAct))) : Bytes :=
  h.flatMap fun o => (chunksSent true side o.out).flatten

/-- The chunks whose send to this end failed. -/
def refused (side : Side) (h : List (Occ RelayState Turn (List RelayAct))) : List Bytes :=
  h.flatMap fun o => chunksSent false side o.out

structure Faithful (h : List (Occ RelayState Turn (List RelayAct))) (s : RelayState) : Prop where
  /-- What came from one end has gone to the other, the refused chunk aside. -/
  all : ∀ side, received side.other h = handed side h ++ (refused side h).flatten
  /-- At most one chunk in all is refused. -/
  one : (refused .peer h).length + (refused .stream h).length ≤ 1
  /-- And none while the loop goes on, or when it stops for any other reason. -/
  none : s ≠ .stopped .sendFailed → ∀ side, refused side h = []
  /-- Nothing goes back to where it came from. -/
  crossed : ∀ o ∈ h, ∀ side bytes ok, RelayAct.sendRaw side bytes ok ∈ o.out →
    ∃ item, o.ev.wake = .received side.other item ∧ item.payload = bytes

/-! ## One turn -/

theorem mem_sends {acts : List RelayAct} {side : Side} {bytes : Bytes} {ok : Bool}
    (h : RelayAct.sendRaw side bytes ok ∈ acts) : (side, bytes, ok) ∈ sends acts :=
  List.mem_filterMap.mpr ⟨_, h, rfl⟩

/-- The chunk that a turn takes in from this end. -/
def Turn.chunkFrom (t : Turn) (side : Side) : Option Bytes :=
  t.chunk.bind fun c => if c.1 = side then some c.2 else none

theorem payload_eq (t : Turn) (side : Side) : t.payload side = (t.chunkFrom side).getD [] := by
  unfold Turn.payload Turn.chunkFrom Turn.chunk
  cases t.wake with
  | tick => rfl
  | received s item =>
      dsimp only
      by_cases hempty : item.payload = []
      · simp [hempty]
      · by_cases hside : s = side
        · simp [hempty, hside]
        · simp [hempty, hside]

/-- What one turn sends to an end, by what the send returned. -/
theorem chunksSent_eq {s s' : RelayState} {t : Turn} {acts : List RelayAct}
    (h : relay s t = some (s', acts)) (side : Side) (ok : Bool) :
    chunksSent ok side acts
      = if t.sendOk = ok then (t.chunkFrom side.other).toList else [] := by
  unfold chunksSent Turn.chunkFrom
  rw [(relay_sends h).1]
  cases t.chunk with
  | none => simp
  | some c =>
      obtain ⟨s, bytes⟩ := c
      have hother : s.other = side ↔ s = side.other := by cases s <;> cases side <;> decide
      by_cases hside : s = side.other
      · by_cases hok : t.sendOk = ok
        · simp [hside, hok]
        · simp [hside, hok]
      · simp [hother, hside]

/-- **Faithful turns**: a turn hands over what it takes in, or stops with one chunk refused. -/
theorem relay_turn {s s' : RelayState} {t : Turn} {acts : List RelayAct}
    (h : relay s t = some (s', acts)) :
    (∀ side, t.payload side.other
        = (chunksSent true side acts).flatten ++ (chunksSent false side acts).flatten)
      ∧ (chunksSent false .peer acts).length + (chunksSent false .stream acts).length ≤ 1
      ∧ (s' ≠ .stopped .sendFailed → ∀ side, chunksSent false side acts = []) := by
  have hstop := (relay_sends h).2
  simp only [chunksSent_eq h, payload_eq]
  cases hok : t.sendOk with
  | true =>
      refine ⟨?_, by simp, by simp⟩
      intro side
      cases t.chunkFrom side.other <;> simp
  | false =>
      refine ⟨?_, ?_, ?_⟩
      · intro side
        cases t.chunkFrom side.other <;> simp
      · unfold Turn.chunkFrom
        cases t.chunk with
        | none => simp
        | some c =>
            obtain ⟨s, bytes⟩ := c
            cases s <;> simp [Side.other]
      · intro hne side
        -- there was no chunk, or else its send has failed
        have hchunk : t.chunk = none := by
          by_contra hsome
          exact hne (hstop.mpr ⟨Option.isSome_iff_ne_none.mpr hsome, hok⟩)
        simp [Turn.chunkFrom, hchunk]

/-! ## Whole relays -/

theorem faithful_step {h : List (Occ RelayState Turn (List RelayAct))} {s s' : RelayState}
    {t : Turn} {acts : List RelayAct} (hf : Faithful h s) (hst : relay s t = some (s', acts)) :
    Faithful (h ++ [⟨s, t, acts, s'⟩]) s' := by
  obtain ⟨hpass, hone, hnone⟩ := relay_turn hst
  -- the loop was still going, so nothing has been refused so far
  have hbefore : ∀ side, refused side h = [] := by
    refine hf.none ?_
    intro hs
    rw [hs] at hst
    cases hst
  have hreceived : ∀ side, received side (h ++ [⟨s, t, acts, s'⟩])
      = received side h ++ t.payload side := fun side => by simp [received]
  have hhanded : ∀ side, handed side (h ++ [⟨s, t, acts, s'⟩])
      = handed side h ++ (chunksSent true side acts).flatten := fun side => by simp [handed]
  have hrefused : ∀ side, refused side (h ++ [⟨s, t, acts, s'⟩]) = chunksSent false side acts := by
    intro side
    have happ : refused side (h ++ [⟨s, t, acts, s'⟩])
        = refused side h ++ chunksSent false side acts := by simp [refused]
    rw [happ, hbefore, List.nil_append]
  constructor
  case all =>
    intro side
    have hall := hf.all side
    rw [hbefore, List.flatten_nil, List.append_nil] at hall
    rw [hreceived, hhanded, hrefused, hall, hpass, List.append_assoc]
  case one =>
    rw [hrefused, hrefused]
    exact hone
  case none =>
    intro hne side
    rw [hrefused]
    exact hnone hne side
  case crossed =>
    intro o ho side bytes ok hsend
    rcases List.mem_append.mp ho with ho | ho
    · exact hf.crossed o ho side bytes ok hsend
    · rw [List.mem_singleton.mp ho] at hsend ⊢
      have hmem := mem_sends hsend
      rw [(relay_sends hst).1, Option.mem_toList, Option.map_eq_some_iff] at hmem
      obtain ⟨⟨from', chunk⟩, hchunk, heq⟩ := hmem
      obtain ⟨rfl, rfl, _⟩ : from'.other = side ∧ chunk = bytes ∧ t.sendOk = ok := by
        simpa using heq
      unfold Turn.chunk at hchunk
      split at hchunk
      · rename_i s item hwake
        split at hchunk
        · cases hchunk
        · obtain ⟨rfl, rfl⟩ := Prod.mk.inj (Option.some.inj hchunk)
          exact ⟨item, by rw [hwake, Side.other_other], rfl⟩
      · cases hchunk

/--
**The relay forwards faithfully**: after every turn, whatever the turns were, each end has
been handed exactly what the other sent, in order; only a failed send loses its chunk.
-/
theorem relay_faithful {l : Loop} {h : List (Occ RelayState Turn (List RelayAct))}
    {s : RelayState} (hr : Run relay (.running l) h s) : Faithful h s := by
  refine Run.inv ?_ (fun _ _ _ _ _ hf hst => faithful_step hf hst) hr
  exact ⟨fun _ => rfl, by decide, fun _ _ => rfl, fun o ho => absurd ho List.not_mem_nil⟩

/-- A turn that receives these bytes at 0 seconds, with empty lists. -/
def Turn.sample (side : Side) (item : Incoming) (sendOk : Bool) : Turn where
  wake := .received side item
  sendOk := sendOk
  recvAt := 0
  checkAt := 0
  resetAt := 0
  lists := ⟨∅, ∅⟩
  startCheck := 1800000

/-- Bytes in both directions, a ping, and a send that fails. -/
theorem relay_faithful_sample : ∃ h,
    Run relay (.running (.start .unspecified 0 0)) h (.stopped .sendFailed)
      ∧ h.length = 4 ∧ Faithful h (.stopped .sendFailed) := by
  have hr : Run relay (.running (.start .unspecified 0 0))
      ([] ++ [⟨_, .sample .peer (.ws (.got (.binary [1, 2]))) true, _, _⟩]
        ++ [⟨_, .sample .peer (.ws (.got (.other [9]))) true, _, _⟩]
        ++ [⟨_, .sample .stream (.tcp (.got [3])) true, _, _⟩]
        ++ [⟨_, .sample .stream (.tcp (.got [4, 5])) false, _, _⟩]) (.stopped .sendFailed) :=
    Run.snoc (Run.snoc (Run.snoc (Run.snoc Run.nil rfl) rfl) rfl) rfl
  exact ⟨_, hr, rfl, relay_faithful hr⟩

end KinBridge.Hbbr
