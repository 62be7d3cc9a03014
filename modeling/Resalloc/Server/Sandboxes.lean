import Resalloc.Foundations.Rowwise
import Resalloc.Server.Isolation

/-!
# Sandboxes from any database

What the server keeps of a database it did not write itself.  The rows may have been
left by another version, so nothing is known about the links between them, and a pass
may raise.  Still no transaction but an assignment writes a sandbox, and a resource that
is ENDED when the server starts is never given to a ticket.

Main results:

- Definition {lit}`Db.Carries`: what transactions keep of every row.
- Theorems {lit}`World.Houses.step` and {lit}`World.Belongs.step`: a sandbox is final.
- Theorem {lit}`World.Gone.step`: so is ENDED, for a resource without workers.
- Theorem {lit}`World.served_together`: the tickets of one resource share its sandbox.
-/

namespace Resalloc

open Foundations

/-! ## What transactions keep -/

/-- A rewrite that keeps the sandbox and leaves ENDED alone. -/
structure Resource.Carried (r r' : Resource) : Prop where
  sandbox : r'.sandbox = r.sandbox
  ended : r.state = .ended → r'.state = .ended

theorem Resource.Carried.refl (r : Resource) : r.Carried r :=
  ⟨rfl, fun h => h⟩

theorem Resource.Carried.trans {r r' r'' : Resource} (h : r.Carried r') (h' : r'.Carried r'') :
    r.Carried r'' :=
  ⟨h'.sandbox.trans h.sandbox, fun hended => h'.ended (h.ended hended)⟩

/-- A row that is not ENDED carries over into every state. -/
theorem Resource.Carried.state {r r' : Resource} (h : r.Carried r') (hstate : r.state ≠ .ended)
    (s : RState) : r.Carried { r' with state := s } :=
  ⟨h.sandbox, fun hended => absurd hended hstate⟩

/-- Two states of a resource in one sandbox. -/
def Resource.SameSandbox (r r' : Resource) : Prop := r'.sandbox = r.sandbox

theorem Resource.SameSandbox.refl (r : Resource) : r.SameSandbox r :=
  rfl

/-- Two states of a ticket in one sandbox. -/
def Ticket.SameSandbox (t t' : Ticket) : Prop := t'.sandbox = t.sandbox

theorem Ticket.SameSandbox.refl (t : Ticket) : t.SameSandbox t :=
  rfl

/-- Two databases of which the second one carries over every row of the first one. -/
structure Db.Carries (db db' : Db) : Prop where
  resources : db.resources.Keeps Resource.Carried db'.resources
  tickets : db.tickets.Keeps Ticket.SameSandbox db'.tickets

section Transactions

variable {db d db' : Db} {p : Pool} {id : ResourceId} {now : Time}

theorem Db.Carries.refl (db : Db) : db.Carries db :=
  ⟨.refl Resource.Carried.refl _, .refl Ticket.SameSandbox.refl _⟩

theorem Db.Carries.trans (h : db.Carries d) (h' : d.Carries db') : db.Carries db' where
  resources := h.resources.trans (fun hab hbc => hab.trans hbc) h'.resources
  tickets := h.tickets.trans (fun hab hbc => Eq.trans hbc hab) h'.tickets

/-- Tables that are not written are carried over. -/
theorem Db.Carries.of_eq (h : db.Carries d) (hresources : db'.resources = d.resources)
    (htickets : db'.tickets = d.tickets) : db.Carries db' :=
  ⟨hresources ▸ h.resources, htickets ▸ h.tickets⟩

/-- One more rewrite of a resource. -/
theorem Db.Carries.modifyResource (h : db.Carries d) {f : Resource → Resource}
    (hf : ∀ r r', db.resources.get? id = some r → r.Carried r' → r.Carried (f r')) :
    db.Carries (d.modifyResource id f) :=
  ⟨h.resources.modify hf, h.tickets⟩

/-- A kill requests the removal of UP resources only. -/
theorem carries_kill (db : Db) (id : ResourceId) : db.Carries (kill db id) where
  resources := by
    refine (IdTable.Keeps.refl Resource.Carried.refl _).modify fun r r' _ hcarried => ?_
    refine hcarried.trans ⟨by simp, fun hended => ?_⟩
    simp [Resource.requested, hended]
  tickets := IdTable.keeps_map fun t => by
    unfold Ticket.SameSandbox Ticket.killedWith
    split_ifs <;> rfl

/-- A restart of the server removes resources that are not ENDED. -/
theorem carries_fixBrokenAfterRestart (db : Db) : db.Carries (fixBrokenAfterRestart db) where
  resources := IdTable.keeps_map fun r => by
    split_ifs with hinconsistent
    · refine (Resource.Carried.refl r).state ?_ _
      intro hended
      simp [hended, RState.inconsistent] at hinconsistent
    · exact .refl r
  tickets := .refl Ticket.SameSandbox.refl _

/-- A release unlinks a row. -/
theorem releaseResource_carries {ticketId : TicketId} (h : db.Carries d)
    (hrelease : releaseResource d ticketId now = .ok db') : db.Carries db' := by
  unfold releaseResource at hrelease
  split at hrelease
  next => contradiction
  next =>
    split at hrelease
    next => contradiction
    next =>
      obtain rfl := Except.ok.inj hrelease
      exact h.modifyResource fun r r' _ hcarried => hcarried.trans ⟨rfl, fun hended => hended⟩

/-- One round of the decoupling writes the row its ticket points to, and the row of its
own resource, which was UP when the pass began. -/
theorem closeIfRequested_carries {acc acc' : Db × List ResourceId}
    (h : db.Carries acc.1) (hup : ∀ r, db.resources.get? id = some r → r.state = .up)
    (hround : p.closeIfRequested now acc id = .ok acc') :
    db.Carries acc'.1 ∧ ∀ j ∈ acc'.2, j ∈ acc.2 ∨ j = id := by
  unfold Pool.closeIfRequested at hround
  split at hround
  next => contradiction
  next ticketId _ =>
    split at hround
    next => contradiction
    next ticket _ =>
      split at hround
      next =>
        split at hround
        next => contradiction
        next released hreleased =>
          have hcarries := releaseResource_carries h hreleased
          split at hround
          all_goals obtain rfl := Except.ok.inj hround
          · refine ⟨hcarries.modifyResource fun r r' hr hcarried => ?_, by simp⟩
            exact hcarried.state (by simp [hup r hr]) _
          · exact ⟨hcarries, fun j hj => .inl hj⟩
      next =>
        obtain rfl := Except.ok.inj hround
        exact ⟨h, fun j hj => .inl hj⟩

/-- The decoupling carries every row over, and releases UP resources. -/
theorem detectClosedTickets_carries {closed : List ResourceId}
    (h : p.detectClosedTickets now db = .ok (db', closed)) :
    db.Carries db' ∧ ∀ id ∈ closed, ∀ r, db.resources.get? id = some r → r.state = .up := by
  have hup : ∀ id ∈ (QResources.taken db (some p.name)).map Prod.fst,
      ∀ r, db.resources.get? id = some r → r.state = .up := by
    intro id hid r hr
    obtain ⟨⟨_, r'⟩, he, rfl⟩ := List.mem_map.mp hid
    obtain ⟨hr', -, hstate, -⟩ := mem_taken.mp he
    rwa [Option.some.inj (hr.symm.trans hr')]
  refine foldlM_ok_invariant (P := fun acc : Db × List ResourceId => db.Carries acc.1 ∧
      ∀ id ∈ acc.2, ∀ r, db.resources.get? id = some r → r.state = .up)
    h ⟨.refl db, by simp⟩ ?_
  rintro acc ⟨hcarries, hclosed⟩ id hid acc' hround
  obtain ⟨hcarries', hids⟩ := closeIfRequested_carries hcarries (hup id hid) hround
  refine ⟨hcarries', fun j hj => ?_⟩
  rcases hids j hj with hold | rfl
  · exact hclosed j hold
  · exact hup j hid

/-- The removal pass carries every row over. -/
theorem requestResourceRemoval_carries (h : p.requestResourceRemoval now db = .ok db') :
    db.Carries db' := by
  rw [requestResourceRemoval_eq] at h
  obtain ⟨db₂, hdb₂, rfl⟩ : ∃ db₂, p.requestUnusableRemoval now db = .ok db₂ ∧
      p.requestOnDemandResourcesRemoval db₂ = db' := by
    cases hunusable : p.requestUnusableRemoval now db with
    | error e => simp [hunusable, Except.map] at h
    | ok db₂ => exact ⟨db₂, rfl, by simpa [hunusable, Except.map] using h⟩
  have hfailing : db.Carries (((QResources.checkFailureCandidates db (some p.name)).map
      Prod.fst).foldl p.removeIfFailing db) := by
    refine List.foldlRecOn _ _ (.refl db) fun d hd id _ => ?_
    unfold Pool.removeIfFailing
    split
    · exact hd
    · split_ifs
      · exact hd.trans (carries_kill d id)
      · exact hd
  have hunusable : db.Carries db₂ := by
    refine hfailing.trans ?_
    refine foldlM_ok_invariant (P := Db.Carries _) hdb₂ (.refl _) ?_
    intro d hd id hid d' hround
    obtain ⟨⟨_, r₀⟩, he, rfl⟩ := List.mem_map.mp hid
    obtain ⟨hr₀, -, hup, -⟩ := mem_cleanCandidates.mp he
    unfold Pool.removeIfUnusable at hround
    split at hround
    next =>
      obtain rfl := Except.ok.inj hround
      exact hd
    next =>
      split at hround
      next => contradiction
      all_goals obtain rfl := Except.ok.inj hround
      · refine hd.modifyResource fun r r' hr hcarried => hcarried.state ?_ _
        obtain rfl := Option.some.inj (hr.symm.trans hr₀)
        simp [hup]
      · exact hd
  refine hunusable.trans ?_
  unfold Pool.requestOnDemandResourcesRemoval
  split_ifs
  · exact .refl db₂
  · refine List.foldlRecOn _ _ (.refl db₂) fun d hd e he => ?_
    obtain ⟨id, r₀⟩ := e
    obtain ⟨hr₀, -, hup, -⟩ := mem_ready.mp (List.mem_of_mem_filter (List.mem_of_mem_take he))
    refine hd.modifyResource fun r r' hr hcarried => hcarried.state ?_ _
    obtain rfl := Option.some.inj (hr.symm.trans hr₀)
    simp [hup]

/-- An allocation inserts a row. -/
theorem allocate_carries {importTime : Time} {datetime : String}
    (h : p.allocate now importTime datetime db = .ok (db', id)) : db.Carries db' := by
  obtain ⟨rfl, htickets, name, hget⟩ := allocate_ok h
  constructor
  · intro j r hr
    refine ⟨r, ?_, .refl r⟩
    rw [hget, if_neg (IdTable.lt_nextId hr).ne, hr]
  · rw [htickets]
    exact .refl Ticket.SameSandbox.refl _

end Transactions

/-! ## What the manager keeps -/

section Manager

variable {i : Input} {importTime : Time} {db db' : Db} {pc pc' : ManagerPc}
variable {started : List Worker} {id : ResourceId} {r : Resource}

/-- Every step of the manager but an assignment carries the rows over. -/
theorem ManagerPc.Steps.carries_or_assigns
    (h : ManagerPc.Steps i importTime db pc db' started pc') :
    db.Carries db' ∨ ∃ j tid ids, pc.assignment? db = some (j, tid) ∧
      chooseResource tid ids db = some j ∧
      db' = (assignTicket db j tid i.uuid.1 i.now).1 := by
  cases h with
  | load _ hresources htickets => exact .inl ((Db.Carries.refl db).of_eq hresources htickets)
  | detectClosed hdetect => exact .inl (detectClosedTickets_carries hdetect).1
  | removal hremoval => exact .inl (requestResourceRemoval_carries hremoval)
  | allocate _ hallocate => exact .inl (allocate_carries hallocate)
  | @assigned c queue ids tid queue' j hpop hchoose =>
      exact .inr ⟨j, tid, ids, by simp [assignment?, hpop, hchoose], hchoose, rfl⟩
  | markCleaned => exact .inl ((Db.Carries.refl db).of_eq rfl rfl)
  | stop | plan | garbage | wantsMore | hasEnough | tooSoon | soonEnough | cleanUnknown
    | keepUnknown | collect | skipped | served => exact .inl (.refl db)

/-- No step of the manager writes a row that is ENDED. -/
theorem ManagerPc.Steps.ended (h : ManagerPc.Steps i importTime db pc db' started pc')
    (hr : db.resources.get? id = some r) (hended : r.state = .ended) :
    ∃ r', db'.resources.get? id = some r' ∧ r'.state = .ended := by
  rcases h.carries_or_assigns with hcarries | ⟨j, tid, ids, -, hchoose, rfl⟩
  · obtain ⟨r', hr', hcarried⟩ := hcarries.resources id r hr
    exact ⟨r', hr', hcarried.ended hended⟩
  · obtain ⟨r₀, t, hr₀, ht, hfits⟩ := chooseResource_fits hchoose
    have hj : id ≠ j := by
      rintro rfl
      obtain rfl := Option.some.inj (hr.symm.trans hr₀)
      simp [hfits.up] at hended
    exact ⟨r, by rw [assignTicket_resource _ _ _ _ _ ht, if_neg hj, hr], hended⟩

/-- The manager starts no worker for a row that is ENDED. -/
theorem ManagerPc.Steps.spares (h : ManagerPc.Steps i importTime db pc db' started pc')
    (hr : db.resources.get? id = some r) (hended : r.state = .ended) {worker : Worker}
    (hmem : worker ∈ started) : worker.job.target? ≠ some id := by
  cases h with
  | detectClosed hdetect =>
      obtain ⟨j, hj, rfl⟩ := List.mem_map.mp hmem
      intro htarget
      obtain rfl : j = id := by simpa [Job.target?] using htarget
      have hup := (detectClosedTickets_carries hdetect).2 j hj r hr
      simp [hup] at hended
  | garbage =>
      obtain ⟨j, hj, rfl⟩ := List.mem_map.mp hmem
      intro htarget
      obtain rfl : j = id := by simpa [Job.target?] using htarget
      obtain ⟨⟨_, r₀⟩, he, rfl⟩ := List.mem_map.mp hj
      obtain ⟨hr₀, -, hstate⟩ := mem_clean.mp he
      obtain rfl := Option.some.inj (hr.symm.trans hr₀)
      simp [hstate] at hended
  | allocate _ hallocate =>
      obtain rfl := List.mem_singleton.mp hmem
      obtain ⟨rfl, -⟩ := allocate_ok hallocate
      intro htarget
      obtain rfl : db.resources.nextId = id := by simpa [Job.target?] using htarget
      simp at hr
  | cleanUnknown =>
      obtain rfl := List.mem_singleton.mp hmem
      simp [Job.target?]
  | _ => simp at hmem

end Manager

/-! ## What the workers keep -/

section Workers

variable {i : Input} {db db' : Db} {worker next : Worker} {id : ResourceId}

theorem Job.Moves.target? {job job' : Job} (h : Job.Moves i job job') :
    job'.target? = job.target? := by
  cases h <;> rfl

/-- A worker stays with its resource. -/
theorem Worker.Steps.target? (h : worker.Steps i db db' next) :
    next.job.target? = worker.job.target? := by
  cases h with
  | moved _ hmoves => exact hmoves.target?
  | terminating _ hjob =>
      rw [hjob]
      rfl
  | _ => rfl

/-- A worker writes the row of its resource only. -/
theorem Worker.Steps.untargeted (h : worker.Steps i db db' next)
    (hother : worker.job.target? ≠ some id) :
    db'.resources.get? id = db.resources.get? id := by
  have hne : ∀ {j}, worker.job.target? = some j → id ≠ j := by
    rintro j htarget rfl
    exact hother htarget
  cases h with
  | started _ hjob _ hresources =>
      rw [hresources, IdTable.get?_modify_of_ne (hne (by rw [hjob]; rfl))]
  | terminating _ hjob =>
      rw [Db.modifyResource_resources, IdTable.get?_modify_of_ne (hne (by rw [hjob]; rfl))]
  | ended _ hjob _ hresources =>
      rw [hresources, IdTable.get?_modify_of_ne (hne (by rw [hjob]; rfl))]
  | returned _ hjob =>
      rw [Db.modifyResource_resources, IdTable.get?_modify_of_ne (hne (by rw [hjob]; rfl))]
  | _ => rfl

/-- A worker writes no sandbox. -/
theorem Worker.Steps.sandboxes (h : worker.Steps i db db' next) :
    db.resources.Keeps Resource.SameSandbox db'.resources ∧ db'.tickets = db.tickets := by
  have hmodify : ∀ {j f}, (∀ r : Resource, (f r).sandbox = r.sandbox) →
      db.resources.Keeps Resource.SameSandbox (db.resources.modify j f) := fun hf =>
    (IdTable.Keeps.refl Resource.SameSandbox.refl _).modify fun r r' _ hsame =>
      (hf r').trans hsame
  cases h with
  | started _ _ htickets hresources => exact ⟨hresources ▸ hmodify fun _ => rfl, htickets⟩
  | terminating => exact ⟨hmodify fun _ => rfl, rfl⟩
  | ended _ _ htickets hresources => exact ⟨hresources ▸ hmodify fun _ => rfl, htickets⟩
  | returned => exact ⟨hmodify fun _ => rfl, rfl⟩
  | raised | moved | cleaned | gaveUp =>
      exact ⟨.refl Resource.SameSandbox.refl _, rfl⟩

end Workers

/-! ## Runs -/

namespace World

variable {w w' u : World} {a : Action} {as : List Action} {id : ResourceId} {tid : TicketId}
variable {s : String}

/-- A step that makes no assignment writes no sandbox. -/
theorem Steps.sandboxes (h : w.Steps a w') (hno : w.assignment? a = none) :
    w.db.resources.Keeps Resource.SameSandbox w'.db.resources ∧
      w.db.tickets.Keeps Ticket.SameSandbox w'.db.tickets := by
  have hcarries : ∀ {db}, w.db.Carries db →
      w.db.resources.Keeps Resource.SameSandbox db.resources ∧
        w.db.tickets.Keeps Ticket.SameSandbox db.tickets := fun hdb =>
    ⟨hdb.resources.weaken fun _ _ hcarried => hcarried.sandbox, hdb.tickets⟩
  cases h with
  | manager hpc =>
      rcases hpc.carries_or_assigns with hdb | ⟨j, tid, ids, hassign, -⟩
      · exact hcarries hdb
      · exact absurd hno (by simp [assignment?, hassign])
  | worker _ _ hstep =>
      obtain ⟨hresources, htickets⟩ := hstep.sandboxes
      exact ⟨hresources, htickets ▸ .refl Ticket.SameSandbox.refl _⟩
  | checked i j status =>
      exact hcarries ((Db.Carries.refl w.db).modifyResource fun _ _ _ hcarried =>
        hcarried.trans ⟨rfl, fun hended => hended⟩)
  | takeTicket =>
      exact ⟨.refl Resource.SameSandbox.refl _, IdTable.keeps_push Ticket.SameSandbox.refl _⟩
  | closeTicket tid =>
      exact ⟨.refl Resource.SameSandbox.refl _,
        (IdTable.Keeps.refl Ticket.SameSandbox.refl _).modify fun _ _ _ hsame => hsame⟩
  | kill k j => exact hcarries (carries_kill w.db j)
  | restart => exact hcarries (carries_fixBrokenAfterRestart w.db)
  | watched | notTaken | notClosed | resourceDelete => exact hcarries (.refl w.db)

/-! ## Sandboxes are final -/

/-- A resource is in a sandbox. -/
def Houses (w : World) (id : ResourceId) (s : String) : Prop :=
  ∃ r, w.db.resources.get? id = some r ∧ r.sandbox = some s

/-- A ticket is in a sandbox. -/
def Belongs (w : World) (tid : TicketId) (s : String) : Prop :=
  ∃ t, w.db.tickets.get? tid = some t ∧ t.sandbox = some s

/-- A resource is in one sandbox. -/
theorem Houses.unique {s' : String} (h : w.Houses id s) (h' : w.Houses id s') : s = s' := by
  obtain ⟨r, hr, hs⟩ := h
  obtain ⟨r', hr', hs'⟩ := h'
  obtain rfl := Option.some.inj (hr.symm.trans hr')
  exact Option.some.inj (hs.symm.trans hs')

/-- No step moves a resource to another sandbox. -/
theorem Houses.step (h : w.Houses id s) (hs : s ≠ "") (hstep : w.step a = some w') :
    w'.Houses id s := by
  obtain ⟨r, hr, hsandbox⟩ := h
  cases hassign : w.assignment? a with
  | none =>
      obtain ⟨r', hr', hsame⟩ := ((step_cases hstep).sandboxes hassign).1 id r hr
      exact ⟨r', hr', hsame.trans hsandbox⟩
  | some e =>
      obtain ⟨i, c, queue, queue', ids, -, -, -, hchoose, rfl⟩ := step_of_assignment hassign hstep
      obtain ⟨-, t, -, ht, -⟩ := chooseResource_fits hchoose
      have htruthy : truthy (some s) = true := (truthy_some s).mpr hs
      simp only [Houses, assignTicket_resource _ _ _ _ _ ht]
      by_cases hid : id = e.1
      · exact ⟨r.assigned e.2 t i.uuid.1 i.now, by simp [← hid, hr],
          by simp [Resource.assigned, hsandbox, htruthy]⟩
      · exact ⟨r, by simp [hid, hr], hsandbox⟩

/-- No step moves a ticket to another sandbox. -/
theorem Belongs.step (h : w.Belongs tid s) (hs : s ≠ "") (hstep : w.step a = some w') :
    w'.Belongs tid s := by
  obtain ⟨t, ht, hsandbox⟩ := h
  cases hassign : w.assignment? a with
  | none =>
      obtain ⟨t', ht', hsame⟩ := ((step_cases hstep).sandboxes hassign).2 tid t ht
      exact ⟨t', ht', hsame.trans hsandbox⟩
  | some e =>
      obtain ⟨i, c, queue, queue', ids, -, -, -, -, rfl⟩ := step_of_assignment hassign hstep
      have htruthy : truthy (some s) = true := (truthy_some s).mpr hs
      simp only [Belongs, assignTicket_ticket]
      by_cases htid : tid = e.2
      · exact ⟨t.assigned e.1 i.uuid.1, by simp [← htid, ht],
          by simp [Ticket.assigned, Ticket.settledSandbox, hsandbox, htruthy]⟩
      · exact ⟨t, by simp [htid, ht], hsandbox⟩

/-- An assignment puts its resource and its ticket into one sandbox. -/
theorem assigned_together (hassign : w.assignment? a = some (id, tid))
    (hstep : w.step a = some w') : ∃ s, s ≠ "" ∧ w'.Houses id s ∧ w'.Belongs tid s := by
  obtain ⟨i, c, queue, queue', ids, -, -, -, hchoose, rfl⟩ := step_of_assignment hassign hstep
  obtain ⟨r, t, hr, ht, hfits⟩ := chooseResource_fits hchoose
  obtain ⟨htruthy, hsame⟩ : truthy (r.assigned tid t i.uuid.1 i.now).sandbox = true ∧
      (t.assigned id i.uuid.1).sandbox = (r.assigned tid t i.uuid.1 i.now).sandbox :=
    assigned_sandbox id hfits
  obtain ⟨s, hs⟩ : ∃ s, (r.assigned tid t i.uuid.1 i.now).sandbox = some s := by
    cases hsandbox : (r.assigned tid t i.uuid.1 i.now).sandbox with
    | none => simp [hsandbox] at htruthy
    | some s => exact ⟨s, rfl⟩
  rw [hs] at htruthy
  refine ⟨s, (truthy_some s).mp htruthy, ⟨_, ?_, hs⟩, ⟨_, ?_, hsame.trans hs⟩⟩
  · simp [assignTicket_resource _ _ _ _ _ ht, hr]
  · simp [ht]

/-- Resources and tickets that a run has in one sandbox when it starts, and those that it
assigns, are in one sandbox when it ends. -/
theorem served_together {ok : World → Action → Prop} (hrun : Path step ok u as w)
    {served : List (ResourceId × TicketId)}
    (hstart : ∀ e ∈ served, ∃ s, s ≠ "" ∧ u.Houses e.1 s ∧ u.Belongs e.2 s) :
    ∀ e ∈ served ++ observe assignment? step u as,
      ∃ s, s ≠ "" ∧ w.Houses e.1 s ∧ w.Belongs e.2 s := by
  induction hrun with
  | refl => simpa [observe] using hstart
  | @snoc as w w' a hrun _ hstep ih =>
      intro e he
      rw [hrun.observe_snoc _ hstep, ← List.append_assoc, List.mem_append] at he
      rcases he with hold | hnew
      · obtain ⟨s, hs, hhouses, hbelongs⟩ := ih e hold
        exact ⟨s, hs, hhouses.step hs hstep, hbelongs.step hs hstep⟩
      · exact assigned_together (by simpa using hnew) hstep

/-! ## Resources that are ENDED -/

/-- A resource is ENDED, and no worker is about it. -/
structure Gone (w : World) (id : ResourceId) : Prop where
  row : ∃ r, w.db.resources.get? id = some r ∧ r.state = .ended
  spared : ∀ k worker, w.workers.get? k = some worker → worker.job.target? ≠ some id

/-- No step brings such a resource back. -/
theorem Gone.step (h : w.Gone id) (hstep : w.Steps a w') : w'.Gone id := by
  obtain ⟨r, hr, hended⟩ := h.row
  have hcarries : ∀ {db}, w.db.Carries db →
      ∃ r', db.resources.get? id = some r' ∧ r'.state = .ended := by
    intro db hdb
    obtain ⟨r', hr', hcarried⟩ := hdb.resources id r hr
    exact ⟨r', hr', hcarried.ended hended⟩
  cases hstep with
  | manager hpc =>
      refine ⟨hpc.ended hr hended, fun k worker hworker => ?_⟩
      rcases get?_spawn hworker with hold | ⟨-, hmem⟩
      · exact h.spared k worker hold
      · exact hpc.spares hr hended hmem
  | @worker k i worker db next hworker _ hnext =>
      have hother := h.spared k worker hworker
      refine ⟨⟨r, (hnext.untargeted hother).trans hr, hended⟩, fun j worker' hworker' => ?_⟩
      by_cases hj : j = k
      · subst hj
        obtain rfl : next = worker' := by simpa [hworker] using hworker'
        rwa [hnext.target?]
      · exact h.spared j worker' (by simpa [IdTable.get?_modify_of_ne hj] using hworker')
  | checked i j status =>
      exact ⟨hcarries ((Db.Carries.refl w.db).modifyResource fun _ _ _ hcarried =>
        hcarried.trans ⟨rfl, fun hs => hs⟩), h.spared⟩
  | kill k j => exact ⟨hcarries (carries_kill w.db j), h.spared⟩
  | restart => exact ⟨hcarries (carries_fixBrokenAfterRestart w.db), by simp⟩
  | watched | takeTicket | closeTicket | notTaken | notClosed | resourceDelete =>
      exact ⟨h.row, h.spared⟩

/-- Such a resource is never given to a ticket. -/
theorem Gone.unassigned (h : w.Gone id) {ok : World → Action → Prop} {v : World}
    (hrun : Path World.step ok w as v) : (id, tid) ∉ observe assignment? World.step w as := by
  intro hmem
  obtain ⟨pre, a, post, x, y, rfl, hpre, -, hassign, -⟩ :=
    Path.exists_of_mem_observe assignment? hrun hmem
  have hgone : x.Gone id := by
    refine hpre.invariant (P := fun w => w.Gone id) h ?_
    intro w b w' hw _ hnext
    exact hw.step (step_cases hnext)
  obtain ⟨r, hr, hended⟩ := hgone.row
  obtain ⟨i, c, queue, ids, queue', -, -, -, hchoose⟩ := assignment?_some hassign
  obtain ⟨r₀, t, hr₀, -, hfits⟩ := chooseResource_fits hchoose
  obtain rfl := Option.some.inj (hr.symm.trans hr₀)
  simp [hfits.up] at hended

end World

end Resalloc
