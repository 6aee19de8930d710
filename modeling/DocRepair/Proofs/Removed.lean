import DocRepair.Proofs.Overwritten
import DocRepair.Proofs.Sent
/-!
# `DocRepair.Proofs.Removed` — which document a deletion removes

A handle carries two identities: the one by which the store knows its document, and the one that the
copy has at present. Saves are addressed by the first, deletions by the second, in memory as on a
server. So a deletion removes the document that the handle is known by only as long as the copy was
not given an identifier of another key. A copy that was given the identifier of another document
removes that one instead.

## Contents

* `Collection.filter_unused` / `Collection.discard_eq_filter` — discarding what is filed under a key;
* `Collection.Without` — a collection without what is filed under a key, all else as it was;
* `Collection.without_iff` — when the removals of two keys are one and the same;
* `Collection.delete_removes` — which document a deletion removes;
* `Reached.created` — one more document;
* `Collection.delete_removes_edited` — a deletion behind an edit of another field;
* `Collection.namesake_removed` — a deletion that removes another document.
-/

namespace DocRepair

namespace Collection

/-! ## Removals -/

variable {docs : List (Option String × Fields)} {key other : Option String}

/-- Nothing is filed under a key that is not in use. -/
theorem filter_unused (unused : lookup docs key = none) :
    (docs.filter fun entry => entry.1 != key) = docs := by
  rw [List.filter_eq_self]
  intro entry listed
  have apart : entry.1 ≠ key := by
    rintro rfl
    exact lookup_eq_none.1 unused (List.mem_map.2 ⟨entry, listed, rfl⟩)
  simpa using apart

/-- Under keys that are in use once, discarding removes all that is filed under a key. -/
theorem discard_eq_filter (keys : (docs.map (·.1)).Nodup) :
    discard docs key = docs.filter fun entry => entry.1 != key := by
  induction docs with
  | nil => rfl
  | cons entry rest ih =>
    obtain ⟨k, doc⟩ := entry
    obtain ⟨fresh, more⟩ := List.nodup_cons.1 keys
    unfold discard
    by_cases own : k = key
    · -- The key is not in use again, so nothing else is filtered out.
      subst own
      have gone : ¬ ((k, doc).1 != k) = true := by simp
      rw [if_pos rfl, List.filter_cons, if_neg gone, filter_unused (lookup_eq_none.2 fresh)]
    · have kept : ((k, doc).1 != key) = true := by simpa using own
      rw [if_neg own, List.filter_cons, if_pos kept, ih more]

/-- A collection without what is filed under a key. All other documents stay, in their order. -/
def Without (before : Collection) (key : Option String) (after : Collection) : Prop :=
  after.docs = before.docs.filter fun entry => entry.1 != key

/-- Two removals that come to the same are removals of one key, or of keys that are not in use. -/
theorem without_iff {c d : Collection} (removed : c.Without key d) :
    c.Without other d ↔
      key = other ∨ lookup c.docs key = none ∧ lookup c.docs other = none := by
  unfold Without at removed ⊢
  rw [removed]
  constructor
  · intro same
    rw [or_iff_not_imp_left]
    intro apart
    -- An entry under either key would be left by the removal of the other.
    have unused {key other : Option String} (apart : key ≠ other)
        (same : (c.docs.filter fun entry => entry.1 != key) =
          c.docs.filter fun entry => entry.1 != other) : lookup c.docs key = none := by
      rw [lookup_eq_none]
      intro used
      obtain ⟨entry, listed, rfl⟩ := List.mem_map.1 used
      have left : entry ∈ c.docs.filter fun e => e.1 != other := by
        rw [List.mem_filter]
        exact ⟨listed, by simpa using apart⟩
      rw [← same, List.mem_filter] at left
      simp at left
    exact ⟨unused apart same, unused (Ne.symm apart) same.symm⟩
  · rintro (rfl | ⟨unused, unused'⟩)
    · rfl
    · rw [filter_unused unused, filter_unused unused']

/-! ## Deletions -/

variable {allowed : Collection → Write → Prop} {c : Collection}

/-- **Which document a deletion removes**, through a handle in any condition: the one filed under the
    present identifier of the copy, and no other. That is the document that the handle is known by
    exactly if the two identities have one key, or neither of them is in use. If the present
    identifier cannot be shown, the deletion stops there and removes nothing. A server is told to
    delete the document with the present identifier, which names the known one exactly if the two
    are equal. -/
theorem delete_removes (reached : Reached allowed c) (h : Handle) (supply : Supply) :
    (if h.id.hasPlain then
        ∃ t, delete h ⟨c, supply⟩ = .ok () t ∧ c.Without (Identity.key h.id) t.store ∧
          (c.Without (Identity.key h.knownId) t.store ↔
            Identity.key h.id = Identity.key h.knownId ∨
              lookup c.docs (Identity.key h.id) = none ∧
                lookup c.docs (Identity.key h.knownId) = none)
      else delete h ⟨c, supply⟩ = .error .endlessInteger ⟨c, supply⟩) ∧
      ∀ r : Remote, ∃ u filter, Remote.delete h ⟨r, supply⟩ = .ok () u ∧
        u.store.sent = r.sent ++ [.deleteOne filter] ∧
        (filter = [(r.idField, h.knownId)] ↔ h.id = h.knownId) := by
  refine ⟨?_, fun r => ⟨_, [(r.idField, h.id)], rfl, rfl, ?_⟩⟩
  · unfold delete
    split
    · rename_i shown
      have removed : c.Without (Identity.key h.id)
          { c with docs := discard c.docs (Identity.key h.id) }.changed :=
        discard_eq_filter reached.filed.keys
      rw [Identity.filing_ok.2 ⟨shown, rfl⟩]
      exact ⟨_, rfl, removed, without_iff removed⟩
    · rename_i hidden
      rw [Identity.filing_error.2 ⟨Bool.eq_false_iff.2 hidden, rfl⟩]
      rfl
  · constructor
    · intro same
      exact (Prod.mk.inj (List.cons.inj same).1).2
    · intro same
      rw [same]

/-- A document is created in a collection that can be reached. -/
theorem Reached.created {doc : Fields} (reached : Reached (fun _ _ => True) c)
    (distinct : Fields.Distinct doc) (supply : Supply) :
    Reached (fun _ _ => True) ((Write.create (.array [.object doc])).after supply c) := by
  refine reached.written (.create _) (fun members listed other given => ?_) trivial supply
  cases listed
  rw [Value.object.inj (List.mem_singleton.1 given)]
  exact distinct

/-- A document is created beside another one, which is fetched, edited in another field and deleted.
    It is gone, and the one created stays. -/
theorem delete_removes_edited :
    let supply : Supply := { origin := 0, last := 0, pace := 1 }
    let first : Fields := [("_id", .text "d1"), ("n", .int 1)]
    let c := (Write.create (.array [.object [("_id", .text "d2")]])).after supply
      (({ name := "forms" } : Collection).extended [first])
    let h := (loan "_id" first).setField "n" (.int 2)
    Reached (fun _ _ => True) c ∧ lookup c.docs (Identity.key h.knownId) = some first ∧
      ∃ t, delete h ⟨c, supply⟩ = .ok () t ∧ c.Without (Identity.key h.knownId) t.store ∧
        t.store.all = [[("_id", .text "d2")]] := by
  intro supply first c h
  have distinct : Fields.Distinct first := by
    show List.Nodup ["_id", "n"]
    decide
  have single : Reached (fun _ _ => True) (({ name := "forms" } : Collection).extended [first]) :=
    .single supply rfl rfl rfl distinct
  have other : Fields.Distinct [("_id", .text "d2")] := List.pairwise_singleton _ _
  have reached : Reached (fun _ _ => True) c := single.created other supply
  obtain ⟨t, run, _, aimed⟩ := (delete_removes reached h supply).1
  have same : h.id = h.knownId := rfl
  have left : t = ((delete h).sessionAfter ⟨c, supply⟩) := (Access.sessionAfter_ok run).symm
  refine ⟨reached, rfl, t, run, aimed.2 (.inl (congrArg _ same)), ?_⟩
  rw [left]
  rfl

/-- One of two documents is fetched, its copy is given the identifier of the other one, and it is
    deleted: the other one is gone. A server is told to delete the other one as well. -/
theorem namesake_removed :
    let supply : Supply := { origin := 0, last := 0, pace := 1 }
    let first : Fields := [("_id", .text "d1")]
    let c := (Write.create (.array [.object [("_id", .text "d2")]])).after supply
      (({ name := "forms" } : Collection).extended [first])
    let h := (loan "_id" first).setField "_id" (.text "d2")
    let r : Remote := { name := "forms" }
    Reached (fun _ _ => True) c ∧ lookup c.docs (Identity.key h.knownId) = some first ∧
      (∃ t, delete h ⟨c, supply⟩ = .ok () t ∧ ¬ c.Without (Identity.key h.knownId) t.store ∧
        t.store.all = [first]) ∧
      ∃ u, Remote.delete h ⟨r, supply⟩ = .ok () u ∧
        u.store.sent = [.deleteOne [("_id", .text "d2")]] ∧ h.knownId = .text "d1" := by
  intro supply first c h r
  have single : Reached (fun _ _ => True) (({ name := "forms" } : Collection).extended [first]) :=
    .single supply rfl rfl rfl (List.pairwise_singleton _ _)
  have other : Fields.Distinct [("_id", .text "d2")] := List.pairwise_singleton _ _
  have reached : Reached (fun _ _ => True) c := single.created other supply
  refine ⟨reached, rfl, ⟨_, rfl, fun removed => ?_, rfl⟩, _, rfl, rfl, rfl⟩
  have keys := congrArg (List.map (·.1)) removed
  revert keys
  decide

end Collection

end DocRepair
