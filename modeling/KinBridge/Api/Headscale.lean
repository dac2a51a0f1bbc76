import KinBridge.Api.Sessions

/-!
# Revoking a device

`revokeHeadscaleDevice` of `headscale.ts`: it lists the nodes of Headscale and deletes those that
have the device's tag, one request after the other. A `fetch` that rejects throws out of it, and
so does a list that cannot be had. A delete that Headscale refuses is logged.
-/

namespace KinBridge.Api

structure HeadscaleEnv where
  headscaleUrl : String
  headscaleUser : String
  headscaleApiKey : String

inductive Method where
  | GET
  | DELETE
deriving DecidableEq, Repr

structure Request where
  method : Method
  url : String
  authorization : String
deriving DecidableEq, Repr

/-- What comes of a `fetch`. -/
inductive Fetched (α : Type) where
  | rejected
  | response (status : Nat) (body : α)
deriving DecidableEq, Repr

/-- There is a response, and `res.ok`. -/
def Fetched.ok {α : Type} : Fetched α → Bool
  | .rejected => false
  | .response status _ => 200 ≤ status && status ≤ 299

structure HeadscaleNode where
  id : String
  /-- They may be missing. -/
  forcedTags : Option (List String)
deriving DecidableEq, Repr

/-- The answers of Headscale: the list, if the body has one, and what comes of each delete. -/
structure HeadscaleReplies where
  list : Fetched (Option (List HeadscaleNode))
  delete : Nat → Fetched Unit

inductive RevokeError where
  | fetchFailed
  /-- `headscale_node_list_failed`. -/
  | nodeListFailed
  /-- The body is not JSON, or has no list of nodes. -/
  | malformedList
deriving DecidableEq, Repr

/-- A `DELETE`: the node it is for, and whether Headscale says it is done. -/
structure DeleteCall where
  node : HeadscaleNode
  request : Request
  ok : Bool
deriving DecidableEq, Repr

/-- What `revokeHeadscaleDevice` did, and the error that it threw, if it threw one. -/
structure Revocation where
  list : Request
  deletes : List DeleteCall
  error : Option RevokeError
deriving DecidableEq, Repr

def deviceTag (deviceId : String) : String := "tag:kb-device-" ++ deviceId

/-- `n.forcedTags?.includes(tag)`. -/
def HeadscaleNode.hasTag (n : HeadscaleNode) (tag : String) : Bool :=
  n.forcedTags.any fun tags => tags.contains tag

section

variable (env : HeadscaleEnv)

def authHeader : String := "Bearer " ++ env.headscaleApiKey

def listRequest : Request :=
  ⟨.GET, env.headscaleUrl ++ "/api/v1/node?user=" ++ encodeURIComponent env.headscaleUser,
    authHeader env⟩

def deleteRequest (n : HeadscaleNode) : Request :=
  ⟨.DELETE, env.headscaleUrl ++ "/api/v1/node/" ++ n.id, authHeader env⟩

/-- The loop over the matching nodes, from the `i`-th call on. -/
def deleteNodes (delete : Nat → Fetched Unit) :
    Nat → List HeadscaleNode → List DeleteCall × Option RevokeError
  | _, [] => ([], none)
  | i, n :: ns =>
    let call : DeleteCall := ⟨n, deleteRequest env n, (delete i).ok⟩
    match delete i with
    | .rejected => ([call], some .fetchFailed)
    | .response _ _ =>
      -- a refusal is logged, and the loop goes on
      let (calls, error) := deleteNodes delete (i + 1) ns
      (call :: calls, error)

def revokeHeadscaleDevice (deviceId : String) (replies : HeadscaleReplies) : Revocation :=
  let request := listRequest env
  match replies.list with
  | .rejected => ⟨request, [], some .fetchFailed⟩
  | .response _ body =>
    -- here a refusal throws
    if !replies.list.ok then ⟨request, [], some .nodeListFailed⟩
    else
      match body with
      | none => ⟨request, [], some .malformedList⟩
      | some nodes =>
        let matching := nodes.filter fun n => n.hasTag (deviceTag deviceId)
        let (deletes, error) := deleteNodes env replies.delete 0 matching
        ⟨request, deletes, error⟩

end

/-- The nodes that are listed, if the list can be had. -/
def HeadscaleReplies.nodes (replies : HeadscaleReplies) : Option (List HeadscaleNode) :=
  match replies.list with
  | .rejected => none
  | .response _ body => if replies.list.ok then body else none

/-! ## The loop -/

variable {env : HeadscaleEnv} {delete : Nat → Fetched Unit} {i : Nat} {ns : List HeadscaleNode}

/-- It goes through if no `fetch` rejects. -/
theorem deleteNodes_error : (deleteNodes env delete i ns).2 = none ↔
    ∀ j < ns.length, delete (i + j) ≠ .rejected := by
  induction ns generalizing i with
  | nil => exact iff_of_true rfl nofun
  | cons n ns ih =>
      have hrest : (∀ j < (n :: ns).length, delete (i + j) ≠ .rejected) ↔
          delete i ≠ .rejected ∧ ∀ j < ns.length, delete (i + 1 + j) ≠ .rejected := by
        rw [List.length_cons]
        constructor
        · intro h
          refine ⟨h 0 (Nat.succ_pos _), fun j hj => ?_⟩
          rw [Nat.add_right_comm]
          exact h (j + 1) (Nat.succ_lt_succ hj)
        · rintro ⟨h0, h⟩ j hj
          cases j with
          | zero => exact h0
          | succ j =>
              have hj' := h j (Nat.lt_of_succ_lt_succ hj)
              rwa [Nat.add_right_comm] at hj'
      rw [hrest, ← ih, deleteNodes]
      cases hreply : delete i with
      | rejected => simp
      | response status body => simp

/-- Each call is for one of the nodes, in order. -/
theorem deleteNodes_call {call : DeleteCall} (h : call ∈ (deleteNodes env delete i ns).1) :
    ∃ j n, ns[j]? = some n ∧ call = ⟨n, deleteRequest env n, (delete (i + j)).ok⟩ := by
  induction ns generalizing i with
  | nil => cases h
  | cons n ns ih =>
      rw [deleteNodes] at h
      have hcall : call = ⟨n, deleteRequest env n, (delete i).ok⟩
          ∨ call ∈ (deleteNodes env delete (i + 1) ns).1 := by
        dsimp only at h
        split at h
        · exact .inl (List.mem_singleton.mp h)
        · exact List.mem_cons.mp h
      rcases hcall with rfl | hlater
      · exact ⟨0, n, rfl, rfl⟩
      · obtain ⟨j, n', hn', rfl⟩ := ih hlater
        exact ⟨j + 1, n', hn', by rw [Nat.add_right_comm, Nat.add_assoc]⟩

/-- And if it goes through, each node has its call. -/
theorem deleteNodes_all (h : (deleteNodes env delete i ns).2 = none) {j : Nat} {n : HeadscaleNode}
    (hn : ns[j]? = some n) :
    ⟨n, deleteRequest env n, (delete (i + j)).ok⟩ ∈ (deleteNodes env delete i ns).1 := by
  induction ns generalizing i j with
  | nil => cases hn
  | cons m ns ih =>
      rw [deleteNodes] at h ⊢
      dsimp only at h ⊢
      split at h
      · cases h
      · cases j with
        | zero =>
            obtain rfl := Option.some.inj hn
            exact List.mem_cons_self
        | succ j =>
            refine List.mem_cons_of_mem _ ?_
            have hlater := ih h hn
            rwa [Nat.add_right_comm] at hlater

end KinBridge.Api
