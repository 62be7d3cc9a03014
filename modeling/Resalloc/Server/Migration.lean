import Resalloc.Server.Sandboxes

/-!
# The migration that allows resource reuse

Revision {lit}`eac9fc01d0d1` of the database adds the columns that the reuse of
resources relies on, and fills them from the tickets that are there.  One loop gives a
sandbox to every OPEN ticket, another one copies the sandbox of its ticket to every
resource that is not ENDED.  A ticket that was closed just before the upgrade is met by
the second loop only.

Main results:

- Definition {lit}`upgrade`: the migration.
- Theorems {lit}`upgrade_ticket` and {lit}`upgrade_resource`: what it leaves of each row.
- Theorem {lit}`upgrade_establishes_iff`: the databases for which the new columns keep
  what the new code relies on.
- Theorem {lit}`upgrade_leaks`: a used resource that changes its sandbox.
-/

namespace Resalloc

open Foundations

namespace Migration

/-! ## The tables -/

/-- A row of {lit}`tickets` before the revision. -/
structure OldTicket where
  resourceId : Option ResourceId := none
  state : TState := .opened
  tags : List String := []
deriving DecidableEq

/-- A row of {lit}`resources` before the revision. -/
structure OldResource where
  name : Option String := none
  data : Option (List UInt8) := none
  pool : String
  state : RState := .starting
  checkLastTime : Time
  checkFailedCount : ℕ := 0
  tags : List ResourceTag := []
deriving DecidableEq

/-- A database before the revision.  The other tables are left as they are. -/
structure OldDb where
  resources : IdTable OldResource := .empty
  tickets : IdTable OldTicket := .empty
  pools : List PoolRow := []
  idsWithinPool : List IDWithinPool := []
  namedCounters : List NamedCounter := []
deriving DecidableEq

/-- A row of {lit}`resources` after the revision, whose new columns may be null. -/
structure NewResource extends OldResource where
  releasedAt : Option Time := none
  releasesCounter : Option Int := none
  sandbox : Option String := none
  sandboxedSince : Option Time := none
  ticketId : Option TicketId := none
deriving DecidableEq

/-- The two tables that the revision writes. -/
structure Tables where
  resources : IdTable NewResource
  tickets : IdTable Ticket
deriving DecidableEq

/-- The values of {lit}`str(uuid.uuid1())`, one for each ticket. -/
structure Uuids where
  value : TicketId → Uuid
  injective : Function.Injective value

/-! ## The upgrade -/

/-- The new columns of a ticket are null. -/
def OldTicket.addColumns (t : OldTicket) : Ticket :=
  { resourceId := t.resourceId, state := t.state, sandbox := none, tags := t.tags }

/-- The new columns of both tables are null. -/
def OldDb.addColumns (db : OldDb) : Tables where
  resources := db.resources.map fun r => { toOldResource := r }
  tickets := db.tickets.map OldTicket.addColumns

/-- The first loop: every OPEN ticket gets a sandbox. -/
def generateSandboxes (uuids : Uuids) (tables : Tables) : Tables :=
  let opened := (tables.tickets.entries.filter fun e => e.2.state = .opened).map Prod.fst
  { tables with
    tickets := opened.foldl
      (fun tickets id =>
        tickets.modify id fun t => { t with sandbox := some (uuids.value id).1 })
      tables.tickets }

/-- The tickets that reference a resource. -/
def Tables.ticketsOf (tables : Tables) (id : ResourceId) : List (TicketId × Ticket) :=
  tables.tickets.entries.filter fun e => e.2.resourceId = some id

/-- A resource takes over its ticket. -/
def NewResource.link (now : TicketId → Time) (r : NewResource) (e : TicketId × Ticket) :
    NewResource :=
  { r with ticketId := some e.1, sandbox := e.2.sandbox, sandboxedSince := some (now e.1) }

/-- One round of the second loop. -/
def fillResource (now : ResourceId → TicketId → Time) (tables : Tables) (id : ResourceId) :
    Tables :=
  let resources := tables.resources.modify id fun r => { r with releasesCounter := some 0 }
  { tables with
    resources := (tables.ticketsOf id).foldl
      (fun resources e => resources.modify id fun r => r.link (now id) e) resources }

/-- {lit}`upgrade`; the clock is read once for each ticket of a resource. -/
def upgrade (uuids : Uuids) (now : ResourceId → TicketId → Time) (db : OldDb) : Tables :=
  let tables := generateSandboxes uuids db.addColumns
  let on := (tables.resources.entries.filter fun e => e.2.state ≠ .ended).map Prod.fst
  on.foldl (fillResource now) tables

/-! ## The rows after the upgrade -/

variable {uuids : Uuids} {now : ResourceId → TicketId → Time} {db : OldDb}
variable {id : ResourceId} {tid : TicketId}

/-- The row that the upgrade leaves of a ticket. -/
def OldTicket.upgraded (t : OldTicket) (uuid : Uuid) : Ticket :=
  { t.addColumns with sandbox := if t.state = .opened then some uuid.1 else none }

/-- The tickets after the first loop. -/
theorem generateSandboxes_ticket (tid : TicketId) :
    (generateSandboxes uuids db.addColumns).tickets.get? tid =
      (db.tickets.get? tid).map fun t => t.upgraded (uuids.value tid) := by
  have hloop := IdTable.get?_foldl_modify_filter db.addColumns.tickets
    (fun t => t.state = .opened) (fun id t => { t with sandbox := some (uuids.value id).1 })
    db.addColumns.tickets tid
  rw [generateSandboxes, hloop]
  cases ht : db.tickets.get? tid with
  | none => simp [OldDb.addColumns, ht]
  | some t =>
      by_cases hopened : t.state = .opened <;>
        simp [OldDb.addColumns, OldTicket.addColumns, OldTicket.upgraded, ht, hopened]

/-- The row that a round of the second loop leaves of its resource. -/
def NewResource.filled (r : NewResource) (now : TicketId → Time)
    (tickets : List (TicketId × Ticket)) : NewResource :=
  tickets.foldl (NewResource.link now) { r with releasesCounter := some 0 }

/-- A round rewrites the row of its resource. -/
theorem fillResource_eq (tables : Tables) (id : ResourceId) :
    fillResource now tables id =
      { tables with
        resources := tables.resources.modify id fun r =>
          r.filled (now id) (tables.ticketsOf id) } := by
  simp only [fillResource, IdTable.foldl_modify_same, IdTable.modify_modify]
  rfl

/-- The second loop writes no ticket, so every round reads the tickets of the first. -/
theorem foldl_fillResource (on : List ResourceId) (tables : Tables) :
    on.foldl (fillResource now) tables =
      { tables with
        resources := on.foldl
          (fun resources id =>
            resources.modify id fun r => r.filled (now id) (tables.ticketsOf id))
          tables.resources } := by
  induction on generalizing tables with
  | nil => rfl
  | cons id on ih => rw [List.foldl_cons, ih, fillResource_eq]; rfl

/-- The tickets that reference a resource, after the first loop. -/
def OldDb.ticketsOf (db : OldDb) (uuids : Uuids) (id : ResourceId) : List (TicketId × Ticket) :=
  (generateSandboxes uuids db.addColumns).ticketsOf id

/-- What the upgrade leaves of a ticket. -/
theorem upgrade_ticket (tid : TicketId) :
    (upgrade uuids now db).tickets.get? tid =
      (db.tickets.get? tid).map fun t => t.upgraded (uuids.value tid) := by
  rw [upgrade, foldl_fillResource]
  exact generateSandboxes_ticket tid

/-- What the upgrade leaves of a resource. -/
theorem upgrade_resource (id : ResourceId) :
    (upgrade uuids now db).resources.get? id =
      (db.resources.get? id).map fun r =>
        if r.state = .ended then { toOldResource := r }
        else NewResource.filled { toOldResource := r } (now id) (db.ticketsOf uuids id) := by
  have hloop := IdTable.get?_foldl_modify_filter db.addColumns.resources
    (fun r => r.state ≠ .ended) (fun id r => r.filled (now id) (db.ticketsOf uuids id))
    db.addColumns.resources id
  rw [upgrade, foldl_fillResource]
  refine hloop.trans ?_
  cases hr : db.resources.get? id with
  | none => simp [OldDb.addColumns, hr]
  | some r => by_cases hended : r.state = .ended <;> simp [OldDb.addColumns, hr, hended]

/-! ## What a resource takes over -/

section Filled

variable (r : NewResource) (clock : TicketId → Time) (tickets : List (TicketId × Ticket))

@[simp]
theorem filled_state : (r.filled clock tickets).state = r.state :=
  List.foldlRecOn (motive := fun r' : NewResource => r'.state = r.state) tickets _ rfl
    fun _ hstate _ _ => hstate

@[simp]
theorem filled_releasesCounter : (r.filled clock tickets).releasesCounter = some 0 :=
  List.foldlRecOn (motive := fun r' : NewResource => r'.releasesCounter = some 0) tickets _ rfl
    fun _ hcounter _ _ => hcounter

/-- A new sandbox is that of a ticket. -/
theorem filled_sandbox : (r.filled clock tickets).sandbox = r.sandbox ∨
    ∃ e ∈ tickets, (r.filled clock tickets).sandbox = e.2.sandbox :=
  List.foldlRecOn
    (motive := fun r' : NewResource =>
      r'.sandbox = r.sandbox ∨ ∃ e ∈ tickets, r'.sandbox = e.2.sandbox)
    tickets _ (.inl rfl) fun _ _ e he => .inr ⟨e, he, rfl⟩

end Filled

/-- Each resource is referenced by at most one ticket. -/
def OldDb.SingleUse (db : OldDb) : Prop :=
  ∀ e ∈ db.tickets.entries, ∀ e' ∈ db.tickets.entries,
    e.2.resourceId ≠ none → e.2.resourceId = e'.2.resourceId → e.1 = e'.1

instance (db : OldDb) : Decidable db.SingleUse :=
  inferInstanceAs (Decidable (∀ _ ∈ _, ∀ _ ∈ _, _ ≠ _ → _))

theorem mem_ticketsOf {t' : Ticket} :
    (tid, t') ∈ db.ticketsOf uuids id ↔ ∃ t, db.tickets.get? tid = some t ∧
      t.resourceId = some id ∧ t' = t.upgraded (uuids.value tid) := by
  rw [OldDb.ticketsOf, Tables.ticketsOf, List.mem_filter, IdTable.mem_entries,
    generateSandboxes_ticket, Option.map_eq_some_iff, decide_eq_true_eq]
  constructor
  · rintro ⟨⟨t, ht, rfl⟩, hid⟩
    exact ⟨t, ht, hid, rfl⟩
  · rintro ⟨t, ht, hid, rfl⟩
    exact ⟨⟨t, ht, rfl⟩, hid⟩

/-- The tickets of a resource are one ticket. -/
theorem OldDb.SingleUse.ticketsOf (h : db.SingleUse) {t : OldTicket}
    (ht : db.tickets.get? tid = some t) (hid : t.resourceId = some id) :
    db.ticketsOf uuids id = [(tid, t.upgraded (uuids.value tid))] := by
  have hall : ∀ e ∈ db.ticketsOf uuids id, e.1 = tid := by
    rintro ⟨tid', t'⟩ he
    obtain ⟨t₀, ht₀, hid₀, -⟩ := mem_ticketsOf.mp he
    exact h _ (IdTable.mem_entries.mpr ht₀) _ (IdTable.mem_entries.mpr ht) (by simp [hid₀])
      (hid₀.trans hid.symm)
  have hmem : (tid, t.upgraded (uuids.value tid)) ∈ db.ticketsOf uuids id :=
    mem_ticketsOf.mpr ⟨t, ht, hid, rfl⟩
  have hnodup : ((db.ticketsOf uuids id).map Prod.fst).Nodup :=
    (IdTable.entries_nodup _).sublist (List.filter_sublist.map _)
  cases htickets : db.ticketsOf uuids id with
  | nil => simp [htickets] at hmem
  | cons e rest =>
      rw [htickets] at hall hmem hnodup
      obtain ⟨hfirst, -⟩ := List.nodup_cons.mp hnodup
      have hrest : rest = [] := by
        apply List.eq_nil_iff_forall_not_mem.mpr
        intro e' he'
        apply hfirst
        rw [hall e List.mem_cons_self, ← hall e' (List.mem_cons_of_mem _ he')]
        exact List.mem_map_of_mem he'
      subst hrest
      rw [List.mem_singleton.mp hmem]

/-- The sandbox of an upgraded resource was generated for a ticket of it. -/
theorem sandbox_generated {r : NewResource} {s : String}
    (hr : (upgrade uuids now db).resources.get? id = some r) (hs : r.sandbox = some s) :
    ∃ tid t, db.tickets.get? tid = some t ∧ t.resourceId = some id ∧ s = (uuids.value tid).1 := by
  rw [upgrade_resource] at hr
  obtain ⟨r₀, -, rfl⟩ := Option.map_eq_some_iff.mp hr
  split_ifs at hs
  rcases filled_sandbox { toOldResource := r₀ } (now id) (db.ticketsOf uuids id) with
    heq | ⟨⟨tid, t'⟩, he, heq⟩
  · simp [heq] at hs
  · obtain ⟨t, ht, hid, rfl⟩ := mem_ticketsOf.mp he
    rw [heq] at hs
    simp only [OldTicket.upgraded] at hs
    split_ifs at hs
    exact ⟨tid, t, ht, hid, (Option.some.inj hs).symm⟩

/-! ## What the new code relies on -/

/-- What the reuse of resources relies on. -/
structure Established (tables : Tables) : Prop where
  /-- A resource that is not ENDED works on its ticket, in the sandbox of the ticket. -/
  linked : ∀ {id r tid t}, tables.resources.get? id = some r → r.state ≠ .ended →
    tables.tickets.get? tid = some t → t.resourceId = some id →
    r.ticketId = some tid ∧ r.sandbox ≠ none ∧ r.sandbox = t.sandbox ∧ r.sandboxedSince ≠ none
  /-- Two resources never share a sandbox. -/
  apart : ∀ {id id' r r'}, tables.resources.get? id = some r →
    tables.resources.get? id' = some r' → id ≠ id' → r.sandbox ≠ none → r.sandbox ≠ r'.sandbox
  counter : ∀ {id r}, tables.resources.get? id = some r → r.state ≠ .ended →
    r.releasesCounter = some 0

/-- Every ticket that references a resource which is not ENDED is OPEN. -/
def OldDb.OnlyOpenOn (db : OldDb) : Prop :=
  ∀ e ∈ db.tickets.entries, ∀ r ∈ e.2.resourceId.bind db.resources.get?,
    r.state ≠ .ended → e.2.state = .opened

instance (db : OldDb) : Decidable db.OnlyOpenOn :=
  inferInstanceAs (Decidable (∀ _ ∈ _, ∀ _ ∈ _, _ ≠ _ → _))

/-- The upgrade establishes it when the tickets of these resources are OPEN. -/
theorem OldDb.OnlyOpenOn.established (hopen : db.OnlyOpenOn) (hsingle : db.SingleUse) :
    Established (upgrade uuids now db) where
  linked := by
    intro id r tid t hr hstate ht hid
    rw [upgrade_resource] at hr
    rw [upgrade_ticket] at ht
    obtain ⟨r₀, hr₀, rfl⟩ := Option.map_eq_some_iff.mp hr
    obtain ⟨t₀, ht₀, rfl⟩ := Option.map_eq_some_iff.mp ht
    have hid₀ : t₀.resourceId = some id := hid
    split_ifs at hstate ⊢ with hended
    · exact absurd hended hstate
    · have hopened : t₀.state = .opened :=
        hopen _ (IdTable.mem_entries.mpr ht₀) r₀ (by simp [hid₀, hr₀]) hended
      rw [hsingle.ticketsOf ht₀ hid₀]
      simp [NewResource.filled, NewResource.link, OldTicket.upgraded, hopened]
  apart := by
    intro id id' r r' hr hr' hne hsome hsame
    obtain ⟨s, hs⟩ := Option.ne_none_iff_exists'.mp hsome
    obtain ⟨tid, t, ht, hid, huuid⟩ := sandbox_generated hr hs
    obtain ⟨tid', t', ht', hid', huuid'⟩ := sandbox_generated hr' (hsame.symm.trans hs)
    obtain rfl : tid = tid' := uuids.injective (Subtype.ext (huuid.symm.trans huuid'))
    obtain rfl := Option.some.inj (ht.symm.trans ht')
    exact hne (Option.some.inj (hid.symm.trans hid'))
  counter := by
    intro id r hr hstate
    rw [upgrade_resource] at hr
    obtain ⟨r₀, -, rfl⟩ := Option.map_eq_some_iff.mp hr
    split_ifs at hstate ⊢ with hended
    · exact absurd hended hstate
    · simp

/-- A resource without a sandbox is what the upgrade leaves of one whose ticket is not
OPEN. -/
theorem Established.onlyOpenOn (h : Established (upgrade uuids now db)) : db.OnlyOpenOn := by
  rintro ⟨tid, t₀⟩ ht r₀ hr hstate
  rw [IdTable.mem_entries] at ht
  obtain ⟨id, hid, hr₀⟩ := Option.bind_eq_some_iff.mp hr
  by_contra hopened
  have ht' : (upgrade uuids now db).tickets.get? tid = some (t₀.upgraded (uuids.value tid)) := by
    rw [upgrade_ticket, ht, Option.map_some]
  have hr' : (upgrade uuids now db).resources.get? id = _ := upgrade_resource id
  rw [hr₀, Option.map_some, if_neg hstate] at hr'
  obtain ⟨-, hsome, hsame, -⟩ := h.linked hr' (by simpa using hstate) ht' hid
  apply hsome
  rw [hsame]
  exact if_neg hopened

/-! ## The new code on an upgraded database -/

/-- An upgraded row as the new code reads it.  No transaction reads the counter of a
resource that is ENDED, which is the only one that may be null. -/
def NewResource.toResource (r : NewResource) : Resource where
  name := r.name
  data := r.data
  pool := r.pool
  state := r.state
  checkLastTime := r.checkLastTime
  checkFailedCount := r.checkFailedCount
  ticketId := r.ticketId
  sandbox := r.sandbox
  sandboxedSince := r.sandboxedSince
  releasedAt := r.releasedAt
  releasesCounter := r.releasesCounter.getD 0
  tags := r.tags

/-- The new server on an upgraded database. -/
def OldDb.upgraded (db : OldDb) (uuids : Uuids) (now : ResourceId → TicketId → Time) : World where
  db :=
    { resources := (upgrade uuids now db).resources.map NewResource.toResource
      tickets := (upgrade uuids now db).tickets
      pools := db.pools
      idsWithinPool := db.idsWithinPool
      namedCounters := db.namedCounters }

/-- The tickets that resources have served before the upgrade. -/
def OldDb.served (db : OldDb) : List (ResourceId × TicketId) :=
  db.tickets.entries.filterMap fun e => e.2.resourceId.map fun id => (id, e.1)

theorem mem_served : (id, tid) ∈ db.served ↔
    ∃ t, db.tickets.get? tid = some t ∧ t.resourceId = some id := by
  simp only [OldDb.served, List.mem_filterMap, Option.map_eq_some_iff, Prod.mk.injEq,
    Prod.exists, IdTable.mem_entries]
  constructor
  · rintro ⟨_, t, ht, _, hid, rfl, rfl⟩
    exact ⟨t, ht, hid⟩
  · rintro ⟨t, ht, hid⟩
    exact ⟨tid, t, ht, id, hid, rfl, rfl⟩

/-- In every run of the new server, a resource that was upgraded and has served a ticket,
before the upgrade or in the run, is assigned to tickets of the same sandbox only. -/
def Isolates (db : OldDb) (w₀ : World) : Prop :=
  ∀ as w, Path World.step anyStep w₀ as w →
    ∀ id tid tid' t t', db.resources.get? id ≠ none →
      (id, tid) ∈ db.served ++ observe World.assignment? World.step w₀ as →
      (id, tid') ∈ observe World.assignment? World.step w₀ as →
      w.db.tickets.get? tid = some t → w.db.tickets.get? tid' = some t' →
      t.sandbox = t'.sandbox

/-- A resource that is ENDED when it is upgraded stays so. -/
theorem gone_upgraded {r : OldResource} (hr : db.resources.get? id = some r)
    (hended : r.state = .ended) : (db.upgraded uuids now).Gone id where
  row := ⟨_, by simp [OldDb.upgraded, upgrade_resource, hr, hended]; rfl, hended⟩
  spared := by simp [OldDb.upgraded]

/-- A resource that is not ENDED starts in the sandbox of its ticket. -/
theorem Established.together (h : Established (upgrade uuids now db)) {r : OldResource}
    {t : OldTicket} (hr : db.resources.get? id = some r) (hstate : r.state ≠ .ended)
    (ht : db.tickets.get? tid = some t) (hid : t.resourceId = some id) :
    ∃ s, s ≠ "" ∧ (db.upgraded uuids now).Houses id s ∧ (db.upgraded uuids now).Belongs tid s := by
  have hr' : (upgrade uuids now db).resources.get? id = _ := upgrade_resource id
  have ht' : (upgrade uuids now db).tickets.get? tid = _ := upgrade_ticket tid
  rw [hr, Option.map_some, if_neg hstate] at hr'
  rw [ht, Option.map_some] at ht'
  obtain ⟨-, hsome, hsame, -⟩ := h.linked hr' (by simpa using hstate) ht' hid
  obtain ⟨s, hs⟩ := Option.ne_none_iff_exists'.mp hsome
  obtain ⟨tid', t', -, -, rfl⟩ := sandbox_generated hr' hs
  refine ⟨_, (uuids.value tid').2, ⟨NewResource.toResource _, ?_, hs⟩,
    ⟨_, ht', hsame.symm.trans hs⟩⟩
  simp [OldDb.upgraded, hr']

/-- The new server keeps the sandboxes that the upgrade has established. -/
theorem Established.isolates (h : Established (upgrade uuids now db)) :
    Isolates db (db.upgraded uuids now) := by
  intro as w hrun id tid tid' t t' hold hmem hmem' ht ht'
  obtain ⟨r, hr⟩ := Option.ne_none_iff_exists'.mp hold
  by_cases hended : r.state = .ended
  · exact absurd hmem' ((gone_upgraded hr hended).unassigned hrun)
  · -- the tickets that this resource has served before
    have hstart : ∀ e ∈ db.served.filter fun e => e.1 = id, ∃ s, s ≠ "" ∧
        (db.upgraded uuids now).Houses e.1 s ∧ (db.upgraded uuids now).Belongs e.2 s := by
      intro e he
      obtain ⟨hserved, hid⟩ := List.mem_filter.mp he
      obtain rfl : e.1 = id := by simpa using hid
      obtain ⟨t₀, ht₀, hid₀⟩ := mem_served.mp hserved
      exact h.together hr hended ht₀ hid₀
    have htogether := World.served_together hrun hstart
    have hboth : ∀ {tid t}, (id, tid) ∈ db.served ++ observe World.assignment? World.step
        (db.upgraded uuids now) as → w.db.tickets.get? tid = some t →
        ∃ s, w.Houses id s ∧ t.sandbox = some s := by
      intro tid t hmem ht
      obtain ⟨s, -, hhouses, t₁, ht₁, hs⟩ := htogether (id, tid) (by
        rcases List.mem_append.mp hmem with hserved | hassigned
        · exact List.mem_append_left _ (List.mem_filter.mpr ⟨hserved, by simp⟩)
        · exact List.mem_append_right _ hassigned)
      obtain rfl := Option.some.inj (ht.symm.trans ht₁)
      exact ⟨s, hhouses, hs⟩
    obtain ⟨s, hhouses, hs⟩ := hboth hmem ht
    obtain ⟨s', hhouses', hs'⟩ := hboth (List.mem_append_right _ hmem') ht'
    rw [hs, hs', hhouses.unique hhouses']

/-- The upgrade establishes what the new code relies on, and the new code isolates the
users of upgraded resources, if and only if every ticket of a resource that is not ENDED
is OPEN. -/
theorem upgrade_establishes_iff (uuids : Uuids) (now : ResourceId → TicketId → Time)
    (db : OldDb) (hsingle : db.SingleUse) :
    Established (upgrade uuids now db) ∧ Isolates db (db.upgraded uuids now) ↔ db.OnlyOpenOn := by
  constructor
  · exact fun h => h.1.onlyOpenOn
  · intro hopen
    have hestablished : Established (upgrade uuids now db) := hopen.established hsingle
    exact ⟨hestablished, hestablished.isolates⟩

/-- A different text for each ticket. -/
def ticketUuids : Uuids where
  value tid := ⟨String.ofList (List.replicate (tid + 1) 'u'), by
    intro h
    have hlength := congrArg String.length h
    simp at hlength⟩
  injective := by
    intro tid tid' h
    have hlength := congrArg (fun uuid : Uuid => uuid.1.length) h
    simpa using hlength

/-- An UP resource with an OPEN ticket, and an ENDED one with a CLOSED ticket. -/
def openDb : OldDb where
  resources := ⟨[{ pool := "basic", state := .up, checkLastTime := 0 },
    { pool := "basic", state := .ended, checkLastTime := 0 }]⟩
  tickets := ⟨[{ resourceId := some 1 }, { resourceId := some 2, state := .closed }]⟩

theorem upgrade_establishes_openDb :
    Established (upgrade ticketUuids (fun _ _ => 5) openDb) ∧
      Isolates openDb (openDb.upgraded ticketUuids fun _ _ => 5) :=
  (upgrade_establishes_iff ticketUuids (fun _ _ => 5) openDb (by decide)).mpr (by decide)

/-- An UP resource whose ticket was closed just before the upgrade. -/
def closedDb : OldDb where
  resources := ⟨[{ pool := "basic", state := .up, checkLastTime := 0 }]⟩
  tickets := ⟨[{ resourceId := some 1, state := .closed }]⟩

/-- A section with reuse is accepted. -/
theorem reusePool_accepted :
    World.reusePool.name ≠ "" ∧ World.reusePool.startOnDemandThisCycle = 0 ∧
      (World.reusePool.tagsOnDemand ≠ [] → World.reusePool.maxPrealloc = 0) ∧
      World.reusePool.validate (onDemandTags [World.reusePool]) := by
  decide +kernel

/-- A client takes a ticket with a sandbox of its own, and the manager runs a cycle. -/
def leakingRun : List Action :=
  .takeTicket [] (some "other") :: World.ticks (.single World.reusePool reusePool_accepted) 9

/-- The new server on that database. -/
def closedStart : World := closedDb.upgraded ticketUuids fun _ _ => 5

/-- The state after the cycle. -/
def leakedWorld : World :=
  (execWithin World.step anyStep closedStart leakingRun).get (by decide +kernel)

/-- The upgraded resource has no sandbox, and the new server gives it to a ticket with
another sandbox than that of the ticket it has served. -/
theorem upgrade_leaks :
    (¬ ∀ uuids now db, db.SingleUse → Established (upgrade uuids now db)) ∧
      ¬ ∀ uuids now db, db.SingleUse → Isolates db (db.upgraded uuids now) := by
  have hsingle : closedDb.SingleUse := by decide
  constructor
  · intro h
    have hopen := (h ticketUuids (fun _ _ => 5) closedDb hsingle).onlyOpenOn
    revert hopen
    decide
  · intro h
    have hrun : Path World.step anyStep closedStart leakingRun leakedWorld :=
      Path.of_execWithin (Option.some_get _).symm
    have hsame := h ticketUuids (fun _ _ => 5) closedDb hsingle leakingRun leakedWorld hrun 1 1 2
      { resourceId := some 1, state := .closed }
      { resourceId := some 1, sandbox := some "other" } (by decide) (by decide +kernel)
      (by decide +kernel) (by decide +kernel) (by decide +kernel)
    contradiction

end Migration

end Resalloc
