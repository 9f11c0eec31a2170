import MachineFork.Proofs.Lineage.Depths
import MachineFork.Proofs.Lineage.Generations

/-!
This module contains what the parent of a node is. As long as there is a node of that name, it is
the very node that has been forked, which was never away, and it is one level up. So no node is its
own ancestor. This holds after any calls, also if nodes are released below their children and their
slots are used again.
-/

namespace MachineFork

namespace Lineage

variable {l m : Lineage} {id parent other : NodeId} {node old above : Node} {call : Call}
variable {calls before after : List Call} {n : Nat}

/-! Nodes that stay. -/

def StaysLive (l : Lineage) (calls : List Call) (id : NodeId) : Prop :=
  ∀ done, done <+: calls → (l.performAll done).isLive id = true

theorem StaysLive.tail (h : l.StaysLive (call :: calls) id) :
    (l.perform call).StaysLive calls id := by
  intro done hdone
  exact h (call :: done) (List.cons_prefix_cons.mpr ⟨rfl, hdone⟩)

theorem staysLive_of_isLive (hfree : l.FreeSlots) (hvacated : l.VacatedAtMost n)
    (hroom : n + releases calls < UInt32.size) (hfirst : l.isLive id = true)
    (hlast : (l.performAll calls).isLive id = true) : l.StaysLive calls id := by
  -- A name that is good at both ends of a run has been good at any time between them.
  intro done hdone
  obtain ⟨rest, rfl⟩ := hdone
  rw [releases_append] at hroom
  obtain ⟨hbefore, hvacated, -⟩ := ages_of_performAll hfree hvacated done (by omega)
  obtain ⟨hafter, -⟩ := ages_of_performAll (hfree.performAll done) hvacated rest (by omega)
  rw [performAll_append] at hlast
  rw [isLive_iff_age] at hfirst hlast ⊢
  -- The slot gets no younger, and it is as old at the end as it is at the beginning.
  have hlower := hbefore id.slot
  have hupper := hafter id.slot
  omega

theorem not_issued_of_live (hfree : l.FreeSlots) (hid : l.node? id = some node) :
    id ∉ l.issues call := by
  intro hissued
  rw [((issues_new hfree call).2 id hissued).1] at hid
  contradiction

theorem StaysLive.same_place (h : l.StaysLive calls id) (hfree : l.FreeSlots)
    (hid : l.node? id = some old) (hid' : (l.performAll calls).node? id = some node) :
    node.parent = old.parent ∧ node.depth = old.depth := by
  induction calls generalizing l old with
  | nil =>
    obtain rfl := Option.some.inj (hid.symm.trans hid')
    exact ⟨rfl, rfl⟩
  | cons call calls ih =>
    obtain ⟨next, hnext⟩ := Option.isSome_iff_exists.mp (h.tail [] List.nil_prefix)
    obtain ⟨hparent, hdepth⟩ := ih h.tail (hfree.perform call) hnext hid'
    obtain ⟨same, hsame, hbelow⟩ := live_before hfree hnext (not_issued_of_live hfree hid)
    obtain rfl := Option.some.inj (hid.symm.trans hsame)
    exact ⟨hparent.trans hbelow.symm, hdepth.trans (depth_perform hfree hid hnext)⟩

theorem exists_issue (hfree : l.FreeSlots) (hvacated : l.VacatedAtMost n)
    (hroom : n + releases calls < UInt32.size) (hnew : l.node? id = none)
    (hlive : (l.performAll calls).isLive id = true) :
    ∃ before call after, calls = before ++ call :: after ∧ id ∈ (l.performAll before).issues call ∧
      ((l.performAll before).perform call).StaysLive after id := by
  induction calls generalizing l n with
  | nil =>
    change l.isLive id = true at hlive
    rw [isLive, hnew] at hlive
    contradiction
  | cons call calls ih =>
    rw [releases_cons, ← Nat.add_assoc] at hroom
    obtain ⟨-, hvacated⟩ := ages_of_perform hfree hvacated call (by omega)
    cases hid : (l.perform call).node? id with
    | none =>
      obtain ⟨before, issuing, after, rfl, hissued, hstays⟩ :=
        ih (hfree.perform call) hvacated hroom hid hlive
      exact ⟨call :: before, issuing, after, rfl, hissued, hstays⟩
    | some node =>
      have hissued : id ∈ l.issues call := by
        by_contra hissued
        obtain ⟨old, hold, -⟩ := live_before hfree hid hissued
        rw [hnew] at hold
        contradiction
      refine ⟨[], call, calls, rfl, hissued, ?_⟩
      apply staysLive_of_isLive (hfree.perform call) hvacated hroom _ hlive
      rw [isLive, hid, Option.isSome_some]

/-! Parents. -/

theorem Call.eq_fork (h : call.forked? = some id) : call = .fork id := by
  cases call with
  | fork forked => exact congrArg fork (Option.some.inj h)
  | _ => simp [forked?] at h

/--
Whether the fork of `parent` between the calls `before` and the calls `after` has made `id`, which
has been there since. If the parent is there at the end, it is the node that was forked: there is no
time at which it was away.
-/
structure ForkedFrom (before after : List Call) (id parent : NodeId) : Prop where
  issued : id ∈ (performAll {} before).issues (.fork parent)
  stays : (performAll {} (before ++ [.fork parent])).StaysLive after id
  parent_stays : (performAll {} (before ++ .fork parent :: after)).isLive parent = true →
    (performAll {} before).StaysLive (.fork parent :: after) parent

/--
How the nodes of a lineage lie above one another: a parent that is still there is one level up, and
the nodes without a parent are those at the top.
-/
structure Graded (l : Lineage) : Prop where
  depth_eq : ∀ {id node parent above}, l.node? id = some node → node.parent = some parent →
    l.node? parent = some above → node.depth = above.depth + 1
  parent_eq_none_iff : ∀ {id node}, l.node? id = some node → (node.parent = none ↔ node.depth = 0)

theorem exists_origin (calls : List Call) (hroom : releases calls < UInt32.size)
    (hid : (performAll {} calls).node? id = some node) :
    ∃ before call after, calls = before ++ call :: after ∧
      id ∈ (performAll {} before).issues call ∧
      ((performAll {} before).perform call).StaysLive after id ∧ node.parent = call.forked? ∧
      match call.forked? with
      | none => node.depth = 0
      | some parent => ∃ above, (performAll {} before).node? parent = some above ∧
          node.depth = above.depth + 1 := by
  have hfree := Tallied.empty.freeSlots
  have hlive : (performAll {} calls).isLive id = true := by rw [isLive, hid, Option.isSome_some]
  obtain ⟨before, call, after, rfl, hissued, hstays⟩ :=
    exists_issue hfree vacatedAtMost_empty (by omega) (by simp [node?]) hlive
  have hfree := hfree.performAll before
  rw [performAll_append, performAll_cons] at hid
  obtain ⟨first, hfirst, hdepth⟩ := depth_issued hfree hissued
  obtain ⟨-, new, hnew, hparent, -⟩ := (issues_new hfree call).2 id hissued
  obtain rfl := Option.some.inj (hfirst.symm.trans hnew)
  obtain ⟨hplace, hlevel⟩ := hstays.same_place (hfree.perform call) hfirst hid
  refine ⟨before, call, after, rfl, hissued, hstays, hplace.trans hparent, ?_⟩
  rw [hlevel]
  exact hdepth

theorem exists_fork (calls : List Call) (hroom : releases calls < UInt32.size)
    (hid : (performAll {} calls).node? id = some node) (hparent : node.parent = some parent) :
    ∃ before after, calls = before ++ .fork parent :: after ∧ ForkedFrom before after id parent ∧
      ∃ forked, (performAll {} before).node? parent = some forked ∧
        node.depth = forked.depth + 1 := by
  obtain ⟨before, call, after, rfl, hissued, hstays, horigin, hdepth⟩ :=
    exists_origin calls hroom hid
  rw [hparent] at horigin
  rw [← horigin] at hdepth
  obtain rfl := Call.eq_fork horigin.symm
  obtain ⟨forked, hforked, hlevel⟩ := hdepth
  refine ⟨before, after, rfl, ⟨hissued, ?_, ?_⟩, forked, hforked, hlevel⟩
  · rw [performAll_append]
    exact hstays
  · intro hlive
    rw [releases_append] at hroom
    have hfree := Tallied.empty.freeSlots
    obtain ⟨-, hvacated, -⟩ := ages_of_performAll hfree vacatedAtMost_empty before (by omega)
    rw [performAll_append] at hlive
    apply staysLive_of_isLive (hfree.performAll before) hvacated (by omega) _ hlive
    rw [isLive, hforked, Option.isSome_some]

theorem graded_performAll (calls : List Call) (hroom : releases calls < UInt32.size) :
    Graded (performAll {} calls) := by
  constructor
  · intro id node parent above hid hparent habove
    obtain ⟨before, after, rfl, horigin, forked, hforked, hlevel⟩ :=
      exists_fork calls hroom hid hparent
    have hstays := horigin.parent_stays (by rw [isLive, habove, Option.isSome_some])
    rw [performAll_append] at habove
    have hfree := Tallied.empty.freeSlots.performAll before
    rw [hlevel, (hstays.same_place hfree hforked habove).2]
  · intro id node hid
    obtain ⟨before, call, after, -, -, -, horigin, hdepth⟩ := exists_origin calls hroom hid
    cases hforked : call.forked? with
    | none =>
      rw [hforked] at horigin hdepth
      simp only [horigin, hdepth]
    | some parent =>
      rw [hforked] at horigin hdepth
      obtain ⟨forked, -, hlevel⟩ := hdepth
      simp [horigin, hlevel]

/-! Ancestors. -/

namespace Graded

theorem of_kept (h : Graded l) (hkept : Kept l m) : Graded m := by
  constructor
  · intro id node parent above hid hparent habove
    obtain ⟨_, hid⟩ := hkept id node hid
    obtain ⟨_, habove⟩ := hkept parent above habove
    have hlevel := h.depth_eq hid hparent habove
    exact hlevel
  · intro id node hid
    obtain ⟨_, hid⟩ := hkept id node hid
    have hroot := h.parent_eq_none_iff hid
    exact hroot

theorem depth_lt (h : Graded l) (hancestor : Relation.TransGen l.IsChild id other)
    (hid : l.node? id = some node) (hother : l.node? other = some above) :
    above.depth < node.depth := by
  induction hancestor generalizing above with
  | single hchild =>
    obtain ⟨same, hsame, hparent⟩ := hchild
    obtain rfl := Option.some.inj (hid.symm.trans hsame)
    have hlevel := h.depth_eq hid hparent hother
    omega
  | tail _ hchild ih =>
    obtain ⟨between, hbetween, hparent⟩ := hchild
    have hbelow := ih hbetween
    have hlevel := h.depth_eq hbetween hparent hother
    omega

theorem acyclic (h : Graded l) (id : NodeId) : ¬Relation.TransGen l.IsChild id id := by
  intro hcycle
  obtain ⟨parent, hchild, -⟩ := Relation.TransGen.head'_iff.mp hcycle
  obtain ⟨node, hid, -⟩ := hchild
  exact Nat.lt_irrefl _ (h.depth_lt hcycle hid hid)

end Graded

end Lineage

end MachineFork
