import Resalloc.Server.Links

/-!
# The passes of a pool over its resources

The two transactions of {lit}`Pool` that loop over rows they write.  Both rely on
the tables being linked: otherwise an assertion or a comparison with a missing
time would raise.  Their effect is stated row by row, in terms of the database
before the loop.

Main results:

- Theorem {lit}`detectClosedTickets_spec`: on linked tables the decoupling never
  raises, and its effect is {lit}`Pool.Decouples`.
- Theorem {lit}`requestResourceRemoval_spec`: on linked tables the removal pass
  never raises, and its effect is {lit}`Pool.Removes`.
-/

namespace Resalloc

open Foundations

/-! ## Decoupling closed tickets -/

section Decoupling

variable {p : Pool} {now : Time} {db : Db}

/-- The ticket of a resource is closed. -/
def Db.ticketClosed (db : Db) (r : Resource) : Bool :=
  (r.ticketId.bind db.tickets.get?).any fun t => t.state = .closed

/-- Rows that {lit}`detect_closed_tickets` decouples. -/
def Pool.Closing (p : Pool) (db : Db) (r : Resource) : Prop :=
  InPool (some p.name) r ∧ r.state = .up ∧ db.ticketClosed r = true

instance (db : Db) (r : Resource) : Decidable (p.Closing db r) :=
  inferInstanceAs (Decidable ((_ → _) ∧ _ ∧ _))

/-- The row {lit}`detect_closed_tickets` leaves of a resource it decouples. -/
def Resource.decoupled (r : Resource) (p : Pool) (now : Time) : Resource :=
  { r.released now with state := if truthy p.cmdRelease then .releasing else r.state }

/-- One round of the loop, for a resource whose ticket points back. -/
theorem closeIfRequested_eq (p : Pool) (now : Time) {acc : Db × List ResourceId}
    {id : ResourceId} {r : Resource} {tid : TicketId} {t : Ticket}
    (hr : acc.1.resources.get? id = some r)
    (htid : r.ticketId = some tid) (ht : acc.1.tickets.get? tid = some t)
    (hback : t.resourceId = some id) :
    p.closeIfRequested now acc id = .ok
      (if t.state = .closed then
        (acc.1.modifyResource id fun r => r.decoupled p now,
          acc.2 ++ if truthy p.cmdRelease then [id] else [])
      else acc) := by
  simp only [Pool.closeIfRequested, hr, Option.bind_some, htid, ht,
    releaseResource_eq _ _ _ ht hback hr]
  split_ifs with hclosed hrelease
  · simp [Db.modifyResource, IdTable.modify_modify, Resource.decoupled, hrelease]
  · simp [Resource.decoupled, hrelease]
    rfl
  · rfl

/-- The loop over the taken resources writes each row at most once, so it can
read every row as it was before the loop. -/
theorem foldlM_closeIfRequested (p : Pool) (now : Time) (h : Linked db)
    {ids : List ResourceId} (hnodup : ids.Nodup)
    (htaken : ∀ id ∈ ids, ∃ r, db.resources.get? id = some r ∧ r.ticketId ≠ none)
    (acc : Db × List ResourceId) (htickets : acc.1.tickets = db.tickets)
    (hrows : ∀ id ∈ ids, acc.1.resources.get? id = db.resources.get? id) :
    ∃ out, ids.foldlM (p.closeIfRequested now) acc = .ok out ∧
      out.1 = { acc.1 with resources := out.1.resources } ∧
      (∀ j, out.1.resources.get? j =
        if j ∈ ids then
          (db.resources.get? j).map fun r =>
            if db.ticketClosed r then r.decoupled p now else r
        else acc.1.resources.get? j) ∧
      out.2 = acc.2 ++ ids.filter fun id =>
        truthy p.cmdRelease && (db.resources.get? id).any db.ticketClosed := by
  induction ids generalizing acc with
  | nil => exact ⟨acc, rfl, rfl, by simp, by simp⟩
  | cons id ids ih =>
      obtain ⟨hid, hnodup⟩ := List.nodup_cons.mp hnodup
      obtain ⟨r, hr, hlinked⟩ := htaken id (by simp)
      obtain ⟨tid, htid⟩ := Option.ne_none_iff_exists'.mp hlinked
      obtain ⟨t, ht, hback⟩ := h.pointsBack hr htid
      have hacc : acc.1.resources.get? id = some r := (hrows id (by simp)).trans hr
      have hclosed : db.ticketClosed r = decide (t.state = .closed) := by
        simp [Db.ticketClosed, htid, ht]
      have hround := closeIfRequested_eq p now hacc htid (htickets ▸ ht) hback
      simp only [List.foldlM_cons, hround]
      by_cases hstate : t.state = .closed
      · rw [if_pos hstate]
        obtain ⟨out, hout, hframe, hget, hids⟩ := ih hnodup
          (fun j hj => htaken j (by simp [hj]))
          (acc.1.modifyResource id fun r => r.decoupled p now,
            acc.2 ++ if truthy p.cmdRelease then [id] else [])
          htickets (fun j hj => by
            rw [Db.modifyResource_resources, IdTable.get?_modify_of_ne (by grind)]
            exact hrows j (by simp [hj]))
        refine ⟨out, hout, hframe, fun j => ?_, ?_⟩
        · rw [hget, Db.modifyResource_resources, IdTable.get?_modify]
          by_cases hj : j = id
          · subst hj
            simp [hid, hacc, hr, hclosed, hstate]
          · simp [hj]
        · simp only [hids, List.filter_cons, hr, Option.any_some, hclosed, hstate, decide_true,
            Bool.and_true, List.append_assoc]
          split_ifs <;> simp
      · rw [if_neg hstate]
        obtain ⟨out, hout, hframe, hget, hids⟩ := ih hnodup
          (fun j hj => htaken j (by simp [hj])) acc htickets
          (fun j hj => hrows j (by simp [hj]))
        refine ⟨out, hout, hframe, fun j => ?_, ?_⟩
        · rw [hget]
          by_cases hj : j = id
          · subst hj
            simp [hid, hacc, hr, hclosed, hstate]
          · simp [hj]
        · simp [hids, hr, hclosed, hstate]

/-- The decoupling rewrites exactly the rows of closed tickets, and lists those that
need a release. -/
structure Pool.Decouples (p : Pool) (now : Time) (db db' : Db) (closed : List ResourceId) :
    Prop where
  frame : db' = { db with resources := db'.resources }
  row : ∀ j, db'.resources.get? j =
    (db.resources.get? j).map fun r => if p.Closing db r then r.decoupled p now else r
  nodup : closed.Nodup
  mem : ∀ id, id ∈ closed ↔ truthy p.cmdRelease = true ∧
    ∃ r, db.resources.get? id = some r ∧ p.Closing db r

/-- On linked tables the decoupling never raises. -/
theorem detectClosedTickets_spec (h : Linked db) (p : Pool) (now : Time) :
    ∃ db' closed, p.detectClosedTickets now db = .ok (db', closed) ∧
      p.Decouples now db db' closed := by
  have htaken : ∀ id, id ∈ (QResources.taken db (some p.name)).map Prod.fst ↔
      ∃ r, db.resources.get? id = some r ∧ InPool (some p.name) r ∧ r.state = .up ∧
        r.ticketId ≠ none := by
    intro id
    simp [mem_taken]
  have hnodup : ((QResources.taken db (some p.name)).map Prod.fst).Nodup := select_nodup _
  have hlinked : ∀ {r}, db.ticketClosed r = true → r.ticketId ≠ none := by
    intro r hclosed hnone
    simp [Db.ticketClosed, hnone] at hclosed
  obtain ⟨out, hout, hframe, hget, hids⟩ := foldlM_closeIfRequested p now h hnodup
    (fun id hid => by obtain ⟨r, hr, -, -, ht⟩ := (htaken id).mp hid; exact ⟨r, hr, ht⟩)
    (db, []) rfl (fun _ _ => rfl)
  refine ⟨out.1, out.2, hout, hframe, fun j => ?_, ?_, fun id => ?_⟩
  · rw [hget]
    cases hr : db.resources.get? j with
    | none => simp
    | some r =>
        have hmem := htaken j
        simp only [hr, Option.some.injEq, exists_eq_left'] at hmem
        simp only [Option.map_some, hmem, Pool.Closing]
        grind
  · rw [hids]
    exact hnodup.filter _
  · rw [hids]
    simp only [List.nil_append, List.mem_filter, htaken, Bool.and_eq_true, Option.any_eq_true,
      Pool.Closing]
    grind

/-- What a decoupling on linked tables has done. -/
theorem Linked.decouples (h : Linked db) {db' : Db} {closed : List ResourceId}
    (hdetect : p.detectClosedTickets now db = .ok (db', closed)) :
    p.Decouples now db db' closed := by
  obtain ⟨out, ids, hout, hdone⟩ := detectClosedTickets_spec h p now
  obtain ⟨rfl, rfl⟩ : out = db' ∧ ids = closed := by simpa [hout] using hdetect
  exact hdone

/-- A decoupled resource has no ticket, and its ticket was closed. -/
theorem Linked.detectClosedTickets (h : Linked db) {db' : Db} {closed : List ResourceId}
    (heq : p.detectClosedTickets now db = .ok (db', closed)) : Linked db' := by
  obtain ⟨hframe, hget, -, -⟩ := h.decouples heq
  have htickets : db'.tickets = db.tickets := by rw [hframe]
  have hrow : ∀ {j r'}, db'.resources.get? j = some r' → ∃ r, db.resources.get? j = some r ∧
      (¬ p.Closing db r ∧ r' = r ∨ p.Closing db r ∧ r' = r.decoupled p now) := by
    intro j r' hr'
    rw [hget] at hr'
    obtain ⟨r, hr, rfl⟩ := Option.map_eq_some_iff.mp hr'
    exact ⟨r, hr, by by_cases hclosing : p.Closing db r <;> simp [hclosing]⟩
  refine ⟨?_, ?_, ?_, ?_, ?_⟩
  · intro j r' tid hr' htid
    obtain ⟨r, hr, ⟨-, rfl⟩ | ⟨-, rfl⟩⟩ := hrow hr'
    · rw [htickets]
      exact h.pointsBack hr htid
    · simp [Resource.decoupled, Resource.released] at htid
  · intro tid t j ht hj
    rw [htickets] at ht
    obtain ⟨r, hr, hopened, hfailed⟩ := h.resource ht hj
    by_cases hclosing : p.Closing db r
    · have hclosed : t.state ≠ .opened ∧ t.state ≠ .failed := by
        refine ⟨fun hstate => ?_, fun hstate => ?_⟩
        · have := hclosing.2.2
          simp [Db.ticketClosed, (hopened hstate).2, ht, hstate] at this
        · have := hfailed hstate
          simp [hclosing.2.1, RState.leaving] at this
      refine ⟨r.decoupled p now, by simp [hget, hr, hclosing], ?_, ?_⟩
      · exact fun hstate => absurd hstate hclosed.1
      · exact fun hstate => absurd hstate hclosed.2
    · exact ⟨r, by simp [hget, hr, hclosing], hopened, hfailed⟩
  · intro j r' hr' hstate
    obtain ⟨r, hr, ⟨-, rfl⟩ | ⟨-, rfl⟩⟩ := hrow hr'
    · exact h.idle hr hstate
    · rfl
  · intro j r' hr' hused
    obtain ⟨r, hr, ⟨-, rfl⟩ | ⟨hclosing, rfl⟩⟩ := hrow hr'
    · exact h.sandboxed hr hused
    · refine h.sandboxed (r := r) hr (.inl fun hnone => ?_)
      have := hclosing.2.2
      simp [Db.ticketClosed, hnone] at this
  · intro j r' hr' htruthy
    obtain ⟨r, hr, ⟨-, rfl⟩ | ⟨-, rfl⟩⟩ := hrow hr'
    · exact h.since hr htruthy
    · exact h.since (r := r) hr htruthy

end Decoupling

/-! ## Requesting removals -/

section Removal

variable {p : Pool} {now : Time} {db db' db'' : Db} {id : ResourceId} {r : Resource}

/-- A resource that was switched to DELETE_REQUEST. -/
def Resource.retired (r : Resource) : Resource := { r with state := .deleteRequest }

/-- What a removal pass of a pool may do: it switches UP rows of the pool to
DELETE_REQUEST, and fails open tickets that have a resource. -/
structure Retires (p : Pool) (db db' : Db) : Prop where
  resources : ∀ j, db'.resources.get? j = db.resources.get? j ∨
    ∃ r, db.resources.get? j = some r ∧ InPool (some p.name) r ∧ r.state = .up ∧
      db'.resources.get? j = some r.retired
  tickets : ∀ j, db'.tickets.get? j = db.tickets.get? j ∨
    ∃ t, db.tickets.get? j = some t ∧ t.resourceId ≠ none ∧ t.state = .opened ∧
      db'.tickets.get? j = some { t with state := .failed }
  frame : db' = { db with resources := db'.resources, tickets := db'.tickets }

/-- A pass that writes nothing. -/
theorem Retires.refl (p : Pool) (db : Db) : Retires p db db :=
  ⟨fun _ => .inl rfl, fun _ => .inl rfl, rfl⟩

/-- Two parts of a pass. -/
theorem Retires.trans (h : Retires p db db') (h' : Retires p db' db'') :
    Retires p db db'' := by
  refine ⟨fun j => ?_, fun j => ?_, ?_⟩
  · rcases h.resources j with heq | ⟨r, hr, hpool, hup, hr'⟩
    · rw [← heq]
      exact h'.resources j
    · refine .inr ⟨r, hr, hpool, hup, ?_⟩
      rcases h'.resources j with heq | ⟨r', hr'', -, hup', -⟩
      · rw [heq, hr']
      · rw [hr', Option.some.injEq] at hr''
        simp [← hr'', Resource.retired] at hup'
  · rcases h.tickets j with heq | ⟨t, ht, hid, hopened, ht'⟩
    · rw [← heq]
      exact h'.tickets j
    · refine .inr ⟨t, ht, hid, hopened, ?_⟩
      rcases h'.tickets j with heq | ⟨t', ht'', -, hopened', -⟩
      · rw [heq, ht']
      · rw [ht', Option.some.injEq] at ht''
        simp [← ht''] at hopened'
  · rw [h'.frame, h.frame]

/-- A row after a pass was there before, at most UP has become DELETE_REQUEST. -/
theorem Retires.row (h : Retires p db db') {r' : Resource}
    (hr' : db'.resources.get? id = some r') :
    ∃ r, db.resources.get? id = some r ∧
      (r' = r ∨ InPool (some p.name) r ∧ r.state = .up ∧ r' = r.retired) := by
  rcases h.resources id with heq | ⟨r, hr, hpool, hup, hret⟩
  · exact ⟨r', heq ▸ hr', .inl rfl⟩
  · exact ⟨r, hr, .inr ⟨hpool, hup, Option.some.inj (hr'.symm.trans hret)⟩⟩

/-- A row before a pass is there afterwards. -/
theorem Retires.kept (h : Retires p db db') (hr : db.resources.get? id = some r) :
    db'.resources.get? id = some r ∨
      InPool (some p.name) r ∧ r.state = .up ∧ db'.resources.get? id = some r.retired := by
  rcases h.resources id with heq | ⟨r', hr', hpool, hup, hret⟩
  · exact .inl (heq.trans hr)
  · obtain rfl := Option.some.inj (hr.symm.trans hr')
    exact .inr ⟨hpool, hup, hret⟩

/-- A kill of a resource of the pool is a part of a pass. -/
theorem Retires.kill (hpool : ∀ r, db.resources.get? id = some r → InPool (some p.name) r) :
    Retires p db (kill db id) := by
  refine ⟨fun j => ?_, fun j => ?_, rfl⟩
  · rw [kill_resource]
    by_cases hj : j = id
    · subst hj
      cases hr : db.resources.get? j with
      | none => simp
      | some r =>
          by_cases hup : r.state = .up
          · have hrequested : r.requested = r.retired := by
              simp [Resource.requested, hup, Resource.retired]
            exact .inr ⟨r, rfl, hpool r hr, hup, by simp [hrequested]⟩
          · simp [Resource.requested, hup]
    · simp [hj]
  · rw [kill_ticket]
    cases ht : db.tickets.get? j with
    | none => simp
    | some t =>
        by_cases hkilled : t.resourceId = some id ∧ t.state = .opened
        · exact .inr ⟨t, rfl, by simp [hkilled.1], hkilled.2, by simp [Ticket.killedWith, hkilled]⟩
        · simp [Ticket.killedWith, hkilled]

/-- The loop over the failing livechecks. -/
theorem foldl_removeIfFailing (h : Linked db) {ids : List ResourceId}
    (hpool : ∀ id ∈ ids, ∀ r, db.resources.get? id = some r → InPool (some p.name) r) :
    Linked (ids.foldl p.removeIfFailing db) ∧
      Retires p db (ids.foldl p.removeIfFailing db) := by
  induction ids generalizing db with
  | nil => exact ⟨h, .refl p db⟩
  | cons id ids ih =>
      have hround : Linked (p.removeIfFailing db id) ∧
          Retires p db (p.removeIfFailing db id) := by
        unfold Pool.removeIfFailing
        split
        · exact ⟨h, .refl p db⟩
        · split
          · exact ⟨h.kill id, .kill (hpool id (by simp))⟩
          · exact ⟨h, .refl p db⟩
      obtain ⟨hlinked, hretires⟩ := ih hround.1 (fun j hj r' hr' => by
        obtain ⟨r, hr, heq | ⟨hin, -, heq⟩⟩ := hround.2.row hr'
        · exact heq ▸ hpool j (by simp [hj]) r hr
        · exact heq ▸ hin)
      exact ⟨hlinked, hround.2.trans hretires⟩

/-- A list of UP resources of the pool that have no ticket is retired. -/
theorem retire_rows (h : Linked db) (htickets : db'.tickets = db.tickets)
    (hframe : db' = { db with resources := db'.resources, tickets := db'.tickets })
    (hrows : ∀ j, db'.resources.get? j = db.resources.get? j ∨
      ∃ r, db.resources.get? j = some r ∧ InPool (some p.name) r ∧ r.state = .up ∧
        r.ticketId = none ∧ db'.resources.get? j = some r.retired) :
    Linked db' ∧ Retires p db db' := by
  refine ⟨h.of_rows htickets (fun j r hr => ?_) (fun j r' hr' hnone => ?_), ?_, ?_, hframe⟩
  · rcases hrows j with heq | ⟨r', hr', -, hup, hfree, hret⟩
    · exact ⟨r, heq.trans hr, .refl r⟩
    · obtain rfl := Option.some.inj (hr.symm.trans hr')
      exact ⟨_, hret, .state (fun _ hne => absurd hfree hne) (fun _ => rfl) (by simp)⟩
  · rcases hrows j with heq | ⟨r, hr, -⟩
    · simp [heq, hnone] at hr'
    · simp [hnone] at hr
  · exact fun j => (hrows j).imp_right fun ⟨r, hr, hpool, hup, _, hret⟩ =>
      ⟨r, hr, hpool, hup, hret⟩
  · exact fun j => .inl (by rw [htickets])

/-- The tests on a released resource succeed when its times are known. -/
theorem unusable_ok (hreleased : r.releasedAt ≠ none) (hsince : r.sandboxedSince ≠ none) :
    ∃ b, p.unusable now r = .ok b := by
  obtain ⟨releasedAt, hreleased⟩ := Option.ne_none_iff_exists'.mp hreleased
  obtain ⟨since, hsince⟩ := Option.ne_none_iff_exists'.mp hsince
  simp only [Pool.unusable, hreleased, hsince]
  split_ifs <;> exact ⟨_, rfl⟩

/-- The loop over the released resources retires those that are unusable. -/
theorem foldlM_removeIfUnusable (p : Pool) (now : Time) {ids : List ResourceId} (hnodup : ids.Nodup)
    (hids : ∀ id ∈ ids, ∃ r, db.resources.get? id = some r ∧ ∃ b, p.unusable now r = .ok b) :
    ∃ db', ids.foldlM (p.removeIfUnusable now) db = .ok db' ∧
      db' = { db with resources := db'.resources } ∧
      ∀ j, db'.resources.get? j =
        (db.resources.get? j).map fun r =>
          if j ∈ ids ∧ p.unusable now r = .ok true then r.retired else r := by
  induction ids generalizing db with
  | nil => exact ⟨db, rfl, rfl, by simp⟩
  | cons id ids ih =>
      obtain ⟨hid, hnodup⟩ := List.nodup_cons.mp hnodup
      obtain ⟨r, hr, b, hb⟩ := hids id (by simp)
      have hround : p.removeIfUnusable now db id =
          .ok (if b then db.modifyResource id Resource.retired else db) := by
        cases b <;> simp only [Pool.removeIfUnusable, hr, hb] <;> rfl
      obtain ⟨db', hdb', hframe, hget⟩ := @ih
        (if b then db.modifyResource id Resource.retired else db) hnodup (fun j hj => by
          have hne : j ≠ id := by grind
          obtain ⟨r', hr', hb'⟩ := hids j (by simp [hj])
          refine ⟨r', ?_, hb'⟩
          split_ifs <;> simp [IdTable.get?_modify_of_ne hne, hr'])
      refine ⟨db', by rw [List.foldlM_cons, hround]; exact hdb', ?_, fun j => ?_⟩
      · rw [hframe]
        split_ifs <;> rfl
      · rw [hget]
        by_cases hj : j = id
        · subst hj
          cases b <;> simp [hr, hid, hb]
        · cases b <;> simp [hj, IdTable.get?_modify_of_ne hj]

/-- The retirements for lack of tickets. -/
theorem foldl_retire (l : List (ResourceId × Resource)) (j : ResourceId) :
    (l.foldl (fun db e => db.modifyResource e.1 fun r => { r with state := .deleteRequest })
        db).resources.get? j =
      (db.resources.get? j).map fun r => if j ∈ l.map Prod.fst then r.retired else r := by
  induction l generalizing db with
  | nil => simp
  | cons e l ih =>
      rw [List.foldl_cons, ih, Db.modifyResource_resources, IdTable.get?_modify]
      cases db.resources.get? j with
      | none => simp
      | some r =>
          by_cases hj : j = e.1
          · simp [hj, Resource.retired]
          · rw [if_neg hj]
            simp only [Option.map_some, List.map_cons, List.mem_cons, hj, false_or]

/-- The retirements for lack of tickets write the resource table only. -/
theorem foldl_retire_frame (db : Db) (l : List (ResourceId × Resource)) :
    l.foldl (fun db e => db.modifyResource e.1 fun r => { r with state := .deleteRequest }) db =
      { db with resources :=
        (l.foldl (fun db e => db.modifyResource e.1 fun r => { r with state := .deleteRequest })
          db).resources } := by
  induction l generalizing db with
  | nil => rfl
  | cons e l ih =>
      rw [List.foldl_cons, ih]
      rfl

/-- The on-demand removals retire ready resources of the pool. -/
theorem requestOnDemandResourcesRemoval_spec (h : Linked db) (p : Pool) :
    Linked (p.requestOnDemandResourcesRemoval db) ∧
      Retires p db (p.requestOnDemandResourcesRemoval db) := by
  unfold Pool.requestOnDemandResourcesRemoval
  split
  · exact ⟨h, .refl p db⟩
  · have hframe := foldl_retire_frame db
      ((p.neverTaken db).take ((p.neverTaken db).length - p.waitingOnUs db))
    refine retire_rows h (by rw [hframe]) (by rw [hframe]) fun j => ?_
    rw [foldl_retire]
    cases hr : db.resources.get? j with
    | none => simp
    | some r =>
        simp only [Option.map_some]
        split_ifs with hmem
        · obtain ⟨⟨_, r'⟩, he, rfl⟩ := List.mem_map.mp hmem
          have hready := List.mem_of_mem_filter (List.mem_of_mem_take he)
          obtain ⟨hr', hpool, hup, hfree, -⟩ := mem_ready.mp hready
          obtain rfl := Option.some.inj (hr.symm.trans hr')
          exact .inr ⟨r, rfl, hpool, hup, hfree, rfl⟩
        · exact .inl rfl

/-- The first two loops of {lit}`_request_resource_removal`, over the failing and over the
released resources. -/
def Pool.requestUnusableRemoval (p : Pool) (now : Time) (db : Db) : Except PyError Db :=
  let failing := (QResources.checkFailureCandidates db (some p.name)).map Prod.fst
  let db := failing.foldl p.removeIfFailing db
  ((QResources.cleanCandidates db (some p.name)).map Prod.fst).foldlM (p.removeIfUnusable now) db

/-- The on-demand removals come after the two loops. -/
theorem requestResourceRemoval_eq (p : Pool) (now : Time) (db : Db) :
    p.requestResourceRemoval now db =
      (p.requestUnusableRemoval now db).map p.requestOnDemandResourcesRemoval := by
  simp only [Pool.requestResourceRemoval, Pool.requestUnusableRemoval]
  split
  next heq => rw [heq, Except.map]
  next heq => rw [heq, Except.map]

/-- The removal pass keeps the tables linked, retires UP rows of its pool only, and
leaves no unusable released resource of it UP. -/
structure Pool.Removes (p : Pool) (now : Time) (db db' : Db) : Prop where
  linked : Linked db'
  retires : Retires p db db'
  usable : ∀ id r, db'.resources.get? id = some r → InPool (some p.name) r → r.state = .up →
    r.ticketId = none → r.releasedAt ≠ none → p.unusable now r = .ok false

/-- On linked tables the two loops never raise. -/
theorem requestUnusableRemoval_spec (h : Linked db) (p : Pool) (now : Time) :
    ∃ db', p.requestUnusableRemoval now db = .ok db' ∧ p.Removes now db db' := by
  have hfailing : ∀ id ∈ (QResources.checkFailureCandidates db (some p.name)).map Prod.fst,
      ∀ r, db.resources.get? id = some r → InPool (some p.name) r := by
    intro id hid r hr
    obtain ⟨⟨_, r'⟩, he, rfl⟩ := List.mem_map.mp hid
    obtain ⟨hr', hpool, -, -⟩ := mem_checkFailureCandidates.mp he
    exact Option.some.inj (hr'.symm.trans hr) ▸ hpool
  obtain ⟨hlinked₁, hretires₁⟩ := foldl_removeIfFailing h hfailing
  set db₁ := ((QResources.checkFailureCandidates db (some p.name)).map Prod.fst).foldl
    p.removeIfFailing db with hdb₁
  have hclean : ∀ id, id ∈ (QResources.cleanCandidates db₁ (some p.name)).map Prod.fst ↔
      ∃ r, db₁.resources.get? id = some r ∧ InPool (some p.name) r ∧ r.state = .up ∧
        r.ticketId = none ∧ r.releasedAt ≠ none := by
    intro id
    simp [mem_cleanCandidates]
  have htested : ∀ {id r}, db₁.resources.get? id = some r → r.releasedAt ≠ none →
      ∃ b, p.unusable now r = .ok b := fun hr hreleased =>
    unusable_ok hreleased (hlinked₁.since hr (hlinked₁.sandboxed hr (.inr hreleased)))
  have hnodup : ((QResources.cleanCandidates db₁ (some p.name)).map Prod.fst).Nodup :=
    select_nodup _
  obtain ⟨db₂, hok₂, hframe₂, hget₂⟩ := foldlM_removeIfUnusable p now hnodup
    (fun id hid => by
      obtain ⟨r, hr, -, -, -, hreleased⟩ := (hclean id).mp hid
      exact ⟨r, hr, htested hr hreleased⟩)
  have htickets₂ : db₂.tickets = db₁.tickets := by rw [hframe₂]
  obtain ⟨hlinked₂, hretires₂⟩ := retire_rows (p := p) hlinked₁ htickets₂
    (by rw [hframe₂]) fun j => by
      rw [hget₂]
      cases hr : db₁.resources.get? j with
      | none => simp
      | some r =>
          simp only [Option.map_some]
          split_ifs with htest
          · obtain ⟨r', hr', hpool, hup, hfree, -⟩ := (hclean j).mp htest.1
            obtain rfl := Option.some.inj (hr.symm.trans hr')
            exact .inr ⟨r, rfl, hpool, hup, hfree, rfl⟩
          · exact .inl rfl
  refine ⟨db₂, hok₂, hlinked₂, hretires₁.trans hretires₂, ?_⟩
  intro id r hr hpool hup hfree hreleased
  -- the row has survived the second loop
  rw [hget₂] at hr
  obtain ⟨r₁, hr₁, heq₁⟩ := Option.map_eq_some_iff.mp hr
  split_ifs at heq₁ with htest
  · simp [← heq₁, Resource.retired] at hup
  · subst heq₁
    obtain ⟨b, hb⟩ := htested hr₁ hreleased
    cases b with
    | false => exact hb
    | true => exact absurd ⟨(hclean id).mpr ⟨r₁, hr₁, hpool, hup, hfree, hreleased⟩, hb⟩ htest

/-- On linked tables the removal pass never raises. -/
theorem requestResourceRemoval_spec (h : Linked db) (p : Pool) (now : Time) :
    ∃ db', p.requestResourceRemoval now db = .ok db' ∧ p.Removes now db db' := by
  obtain ⟨db₁, hok₁, hlinked₁, hretires₁, husable₁⟩ := requestUnusableRemoval_spec h p now
  obtain ⟨hlinked₂, hretires₂⟩ := requestOnDemandResourcesRemoval_spec hlinked₁ p
  refine ⟨p.requestOnDemandResourcesRemoval db₁, ?_, hlinked₂, hretires₁.trans hretires₂, ?_⟩
  · rw [requestResourceRemoval_eq, hok₁]
    rfl
  · intro id r hr hpool hup hfree hreleased
    obtain ⟨r₁, hr₁, rfl | ⟨-, -, rfl⟩⟩ := hretires₂.row hr
    · exact husable₁ id r hr₁ hpool hup hfree hreleased
    · simp [Resource.retired] at hup

/-- What a removal pass on linked tables has done. -/
theorem Linked.removes (h : Linked db)
    (hremoval : p.requestResourceRemoval now db = .ok db') : p.Removes now db db' := by
  obtain ⟨out, hout, hdone⟩ := requestResourceRemoval_spec h p now
  obtain rfl : out = db' := by simpa [hout] using hremoval
  exact hdone

end Removal

end Resalloc
