import KinBridge.Api.Headscale

/-!
# Whether a revocation is all or error

The caller of `revokeHeadscaleDevice` learns what came of it from whether it throws. A delete
that Headscale refuses does not make it throw, so that it may return with nodes of the device
still there.
-/

namespace KinBridge.Api

variable {env : HeadscaleEnv} {deviceId : String} {replies : HeadscaleReplies}
  {nodes : List HeadscaleNode}

/-- The nodes that are to be deleted, in the order of the calls. -/
def matching (deviceId : String) (nodes : List HeadscaleNode) : List HeadscaleNode :=
  nodes.filter fun n => n.hasTag (deviceTag deviceId)

/-- If it returns, each node of the device is deleted; and no other node ever is. -/
structure AllOrError (env : HeadscaleEnv) (deviceId : String) (replies : HeadscaleReplies) :
    Prop where
  all : (revokeHeadscaleDevice env deviceId replies).error = none →
    ∀ nodes, replies.nodes = some nodes → ∀ n ∈ nodes, n.hasTag (deviceTag deviceId) →
      ∃ call ∈ (revokeHeadscaleDevice env deviceId replies).deletes,
        call.node.id = n.id ∧ call.ok
  only : ∀ call ∈ (revokeHeadscaleDevice env deviceId replies).deletes,
    call.request = deleteRequest env call.node ∧ call.node.hasTag (deviceTag deviceId)
      ∧ ∃ nodes, replies.nodes = some nodes ∧ call.node ∈ nodes

/-- If the nodes are listed, a delete is rejected, or each node of the device has one that
Headscale accepts. -/
def NoneRefused (deviceId : String) (replies : HeadscaleReplies) : Prop :=
  ∀ nodes, replies.nodes = some nodes →
    (∃ i < (matching deviceId nodes).length, replies.delete i = .rejected)
      ∨ ∀ (i : Nat) n, (matching deviceId nodes)[i]? = some n →
          ∃ (j : Nat) (m : HeadscaleNode), (matching deviceId nodes)[j]? = some m ∧ m.id = n.id
            ∧ (replies.delete j).ok

theorem mem_matching {n : HeadscaleNode} :
    n ∈ matching deviceId nodes ↔ n ∈ nodes ∧ n.hasTag (deviceTag deviceId) :=
  List.mem_filter

/-! ## What is done with the list -/

/-- Without it, nothing is deleted. -/
theorem revoke_unlisted (h : replies.nodes = none) :
    (revokeHeadscaleDevice env deviceId replies).deletes = []
      ∧ (revokeHeadscaleDevice env deviceId replies).error ≠ none := by
  unfold HeadscaleReplies.nodes at h
  unfold revokeHeadscaleDevice
  cases hlist : replies.list with
  | rejected => exact ⟨rfl, nofun⟩
  | response status body =>
      rw [hlist] at h
      dsimp only at h ⊢
      cases hok : (Fetched.response status body).ok with
      | false => exact ⟨rfl, nofun⟩
      | true =>
          rw [hok, if_pos rfl] at h
          rw [h]
          exact ⟨rfl, nofun⟩

theorem revoke_listed (h : replies.nodes = some nodes) :
    revokeHeadscaleDevice env deviceId replies =
      ⟨listRequest env, (deleteNodes env replies.delete 0 (matching deviceId nodes)).1,
        (deleteNodes env replies.delete 0 (matching deviceId nodes)).2⟩ := by
  unfold HeadscaleReplies.nodes at h
  unfold revokeHeadscaleDevice
  cases hlist : replies.list with
  | rejected => rw [hlist] at h; cases h
  | response status body =>
      rw [hlist] at h
      dsimp only at h ⊢
      cases hok : (Fetched.response status body).ok with
      | false => rw [hok] at h; cases h
      | true =>
          rw [hok, if_pos rfl] at h
          rw [h]
          rfl

/-- It returns if no delete is rejected. -/
theorem revoke_returns (h : replies.nodes = some nodes) :
    (revokeHeadscaleDevice env deviceId replies).error = none ↔
      ∀ i < (matching deviceId nodes).length, replies.delete i ≠ .rejected := by
  rw [revoke_listed h, deleteNodes_error]
  simp only [Nat.zero_add]

/-- A delete is for the next of the device's nodes. -/
theorem revoke_call (h : replies.nodes = some nodes) {call : DeleteCall}
    (hcall : call ∈ (revokeHeadscaleDevice env deviceId replies).deletes) :
    ∃ j n, (matching deviceId nodes)[j]? = some n
      ∧ call = ⟨n, deleteRequest env n, (replies.delete j).ok⟩ := by
  rw [revoke_listed h] at hcall
  obtain ⟨j, n, hn, rfl⟩ := deleteNodes_call hcall
  exact ⟨j, n, hn, by rw [Nat.zero_add]⟩

theorem revoke_only : ∀ call ∈ (revokeHeadscaleDevice env deviceId replies).deletes,
    call.request = deleteRequest env call.node ∧ call.node.hasTag (deviceTag deviceId)
      ∧ ∃ nodes, replies.nodes = some nodes ∧ call.node ∈ nodes := by
  intro call hcall
  cases hlisted : replies.nodes with
  | none => rw [(revoke_unlisted hlisted).1] at hcall; cases hcall
  | some nodes =>
      obtain ⟨j, n, hn, rfl⟩ := revoke_call hlisted hcall
      obtain ⟨hmem, htag⟩ := mem_matching.mp (List.mem_of_getElem? hn)
      exact ⟨rfl, htag, nodes, rfl, hmem⟩

/-! ## The outcome -/

/-- **A revocation is all or error** exactly if no node of the device is refused, unless a delete
is rejected. -/
theorem revoked_iff : AllOrError env deviceId replies ↔ NoneRefused deviceId replies := by
  constructor
  · intro h nodes hlisted
    -- it throws, or every node of the device is deleted
    by_cases hrejected : ∃ i < (matching deviceId nodes).length, replies.delete i = .rejected
    · exact .inl hrejected
    · refine .inr fun i n hn => ?_
      have hreturns : (revokeHeadscaleDevice env deviceId replies).error = none :=
        (revoke_returns hlisted).mpr fun j hj hrej => hrejected ⟨j, hj, hrej⟩
      obtain ⟨hmem, htag⟩ := mem_matching.mp (List.mem_of_getElem? hn)
      obtain ⟨call, hcall, hid, hok⟩ := h.all hreturns nodes hlisted n hmem htag
      obtain ⟨j, m, hm, rfl⟩ := revoke_call hlisted hcall
      exact ⟨j, m, hm, hid, hok⟩
  · intro h
    refine ⟨fun hreturns nodes hlisted n hmem htag => ?_, revoke_only⟩
    have hnone := (revoke_returns hlisted).mp hreturns
    rcases h nodes hlisted with ⟨i, hi, hrej⟩ | hall
    · exact absurd hrej (hnone i hi)
    · obtain ⟨i, hn⟩ := List.mem_iff_getElem?.mp (mem_matching.mpr ⟨hmem, htag⟩)
      obtain ⟨j, m, hm, hid, hok⟩ := hall i n hn
      rw [revoke_listed hlisted] at hreturns ⊢
      have hcall := deleteNodes_all hreturns hm
      rw [Nat.zero_add] at hcall
      exact ⟨_, hcall, hid, hok⟩

def headscaleEnv : HeadscaleEnv := ⟨"http://headscale:8080", "kinbridge", "key-1"⟩

/-- One node of `dev-1` is listed, and Headscale answers 500 to its delete. -/
def refusing : HeadscaleReplies where
  list := .response 200 (some [⟨"7", some ["tag:kb-device-dev-1"]⟩])
  delete _ := .response 500 ()

/-- It returns as if the device were revoked. -/
theorem refusal_unreported :
    (revokeHeadscaleDevice headscaleEnv "dev-1" refusing).error = none
      ∧ (∀ call ∈ (revokeHeadscaleDevice headscaleEnv "dev-1" refusing).deletes, call.ok = false)
      ∧ ¬ AllOrError headscaleEnv "dev-1" refusing := by
  have hreturns : (revokeHeadscaleDevice headscaleEnv "dev-1" refusing).error = none := by decide
  have hrefused : ∀ call ∈ (revokeHeadscaleDevice headscaleEnv "dev-1" refusing).deletes,
      call.ok = false := by decide
  refine ⟨hreturns, hrefused, fun h => ?_⟩
  obtain ⟨call, hcall, -, hok⟩ := h.all hreturns _ rfl _ (List.mem_singleton_self _) (by decide)
  rw [hrefused call hcall] at hok
  cases hok

end KinBridge.Api
