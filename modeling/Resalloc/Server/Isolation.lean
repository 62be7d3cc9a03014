import Resalloc.Server.Serving

/-!
# Sandbox isolation

Tickets that share a resource share its sandbox.  A ticket that was taken without
a sandbox gets a generated one, which no other ticket carries at that time; it
shares its resource only with tickets that a client later takes with exactly that
generated value.

Main results:

- Theorem {lit}`World.Reaches.isolated`: the sandbox of a resource is constant and
  is the sandbox of all its tickets.
- Theorem {lit}`World.generated_shared`: a client that supplies a generated value
  shares a resource with the ticket the value was generated for.
-/

namespace Resalloc

open Foundations

namespace World

variable {w w' u v : World} {a : Action} {as bs : List Action} {id : ResourceId}
variable {tid : TicketId} {r r' : Resource} {t t' : Ticket}

/-! ## Histories -/

/-- The ticket an action takes, with the sandbox the client supplies. -/
def taken? (w : World) (a : Action) : Option (TicketId × Option String) :=
  match a with
  | .takeTicket tags sandbox => if tags.Nodup then some (w.db.tickets.nextId, sandbox) else none
  | _ => none

/-- All assignments of a run, in their order. -/
def assignments (as : List Action) : List (ResourceId × TicketId) :=
  observe assignment? step init as

/-- All tickets taken in a run, with the supplied sandboxes. -/
def taken (as : List Action) : List (TicketId × Option String) :=
  observe taken? step init as

/-- The sandbox that an assignment generates. -/
def generated? (w : World) (a : Action) : Option String :=
  match a, w.assignment? a with
  | .manager i, some (_, tid) =>
      if (w.db.tickets.get? tid).any fun t => !truthy t.sandbox then some i.uuid.1 else none
  | _, _ => none

/-- A generated sandbox is one that no ticket carries. -/
def FreshUuid (w : World) (a : Action) : Prop :=
  ∀ sandbox ∈ w.generated? a, ∀ e ∈ w.db.tickets.entries, e.2.sandbox ≠ some sandbox

instance (w : World) (a : Action) : Decidable (FreshUuid w a) :=
  inferInstanceAs (Decidable (∀ _ ∈ _, _))

/-- The ticket table remembers every assignment. -/
theorem Reaches.mem_assignments {ok : World → Action → Prop} (h : Reaches ok as w) :
    (id, tid) ∈ assignments as →
      ∃ t, w.db.tickets.get? tid = some t ∧ t.resourceId = some id := by
  induction h with
  | refl => simp [assignments, observe]
  | @snoc as u w a hrun hok hstep ih =>
      intro hmem
      rw [assignments, hrun.observe_snoc _ hstep, List.mem_append] at hmem
      have hsteps := step_cases hstep
      have hlinked := Reaches.inv hrun |>.linked
      rcases hmem with hmem | hmem
      · obtain ⟨t, ht, hid⟩ := ih hmem
        obtain ⟨t', ht', hrow⟩ := hsteps.ticket hlinked ht
        refine ⟨t', ht', ?_⟩
        cases hrow with
        | assigned i hassign =>
            obtain ⟨_, t₀, -, ht₀, -, hnone, -⟩ := Reaches.fits hrun hassign
            obtain rfl := Option.some.inj (ht.symm.trans ht₀)
            simp [hnone] at hid
        | _ => exact hid
      · have hassign : u.assignment? a = some (id, tid) := by simpa using hmem
        obtain ⟨r, t, -, ht, -⟩ := Reaches.fits hrun hassign
        obtain ⟨i, c, queue, queue', ids, -, -, -, -, rfl⟩ := step_of_assignment hassign hstep
        exact ⟨t.assigned id i.uuid.1, by simp [ht], rfl⟩

/-- A ticket keeps the sandbox it was taken with, if it was taken with one. -/
theorem Reaches.exists_taken {ok : World → Action → Prop} (h : Reaches ok as w)
    (ht : w.db.tickets.get? tid = some t) :
    ∃ sandbox, (tid, sandbox) ∈ taken as ∧
      (truthy sandbox = true ∨ t.resourceId = none → t.sandbox = sandbox) := by
  induction h generalizing t with
  | refl => simp [init] at ht
  | @snoc as u w a hrun hok hstep ih =>
      have hlinked := Reaches.inv hrun |>.linked
      have htaken : taken (as ++ [a]) = taken as ++ (u.taken? a).toList := hrun.observe_snoc _ hstep
      rw [htaken]
      cases hold : u.db.tickets.get? tid with
      | none =>
          obtain ⟨tags, sandbox, rfl, htags, rfl, rfl⟩ := (step_cases hstep).taken hlinked ht hold
          exact ⟨sandbox, by simp [taken?, htags], fun _ => rfl⟩
      | some t₀ =>
          obtain ⟨sandbox, hmem, hkept⟩ := ih hold
          refine ⟨sandbox, List.mem_append_left _ hmem, ?_⟩
          obtain ⟨t', ht', hrow⟩ := (step_cases hstep).ticket hlinked hold
          obtain rfl := Option.some.inj (ht.symm.trans ht')
          cases hrow with
          | assigned i hassign =>
              obtain ⟨_, t₁, -, ht₁, -, hnone, -⟩ := Reaches.fits hrun hassign
              obtain rfl := Option.some.inj (hold.symm.trans ht₁)
              rintro (htruthy | hfalse)
              · have hsandbox := hkept (.inr hnone)
                simp [Ticket.assigned, Ticket.settledSandbox, hsandbox, htruthy]
              · simp [Ticket.assigned] at hfalse
          | _ => exact hkept

/-- No ticket is taken twice. -/
theorem Reaches.taken_nodup {ok : World → Action → Prop} (h : Reaches ok as w) :
    ((taken as).map Prod.fst).Nodup ∧
      ∀ e ∈ taken as, ∃ t, w.db.tickets.get? e.1 = some t := by
  induction h with
  | refl => simp [taken, observe]
  | @snoc as u w a hrun hok hstep ih =>
      obtain ⟨hnodup, hold⟩ := ih
      have hsteps := step_cases hstep
      have htaken : taken (as ++ [a]) = taken as ++ (u.taken? a).toList := hrun.observe_snoc _ hstep
      have hkept : ∀ e ∈ taken as, ∃ t, w.db.tickets.get? e.1 = some t := by
        intro e he
        obtain ⟨t, ht⟩ := hold e he
        obtain ⟨t', ht', -⟩ := hsteps.ticket (Reaches.inv hrun).linked ht
        exact ⟨t', ht'⟩
      rw [htaken]
      cases hnew : u.taken? a with
      | none => simpa using ⟨by simpa using hnodup, by simpa using hkept⟩
      | some e =>
          -- the new ticket takes the next identifier
          obtain ⟨he, hget⟩ : e.1 = u.db.tickets.nextId ∧ ∃ t, w.db.tickets.get? e.1 = some t := by
            cases hsteps with
            | takeTicket sandbox htags =>
                simp only [taken?, htags, if_true, Option.some.injEq] at hnew
                subst hnew
                exact ⟨rfl, _, (IdTable.get?_push _ _ _).trans (if_pos rfl)⟩
            | notTaken sandbox htags => simp [taken?, htags] at hnew
            | _ => simp [taken?] at hnew
          refine ⟨?_, fun d hd => ?_⟩
          · simp only [Option.toList_some, List.map_append, List.map_cons, List.map_nil]
            refine hnodup.append (List.nodup_singleton _) ?_
            simp only [List.disjoint_singleton]
            intro hmem
            obtain ⟨d, hd, heq⟩ := List.mem_map.mp hmem
            obtain ⟨t, ht⟩ := hold d hd
            exact absurd (IdTable.lt_nextId ht) (by rw [heq, he]; exact lt_irrefl _)
          · rcases List.mem_append.mp hd with hd | hd
            · exact hkept d hd
            · obtain rfl : d = e := by simpa using hd
              exact hget

/-! ## The sandbox of a resource -/

/-- The sandbox of a resource is the sandbox of its tickets, and is not empty. -/
structure Sandboxed (db : Db) : Prop where
  ticket : ∀ {tid t id r}, db.tickets.get? tid = some t → t.resourceId = some id →
    db.resources.get? id = some r → truthy r.sandbox = true ∧ t.sandbox = r.sandbox
  resource : ∀ {id r}, db.resources.get? id = some r → r.sandbox ≠ none →
    truthy r.sandbox = true

/-- The sandbox of a resource that has one never changes. -/
theorem ResourceSteps.sandbox (h : w.ResourceSteps id r a r') :
    r'.sandbox = r.sandbox ∨ truthy r.sandbox = false ∧ ∃ i tid t,
      a = .manager i ∧ w.assignment? a = some (id, tid) ∧ w.db.tickets.get? tid = some t ∧
        r' = r.assigned tid t i.uuid.1 i.now := by
  cases h with
  | @assigned i tid t hassign ht _ _ =>
      cases htruthy : truthy r.sandbox with
      | true => exact .inl (by simp [Resource.assigned, htruthy])
      | false => exact .inr ⟨rfl, i, tid, t, rfl, hassign, ht, rfl⟩
  | _ => exact .inl rfl

/-- Both rows of an assignment carry the same sandbox afterwards. -/
theorem assigned_sandbox (id : ResourceId) {uuid : Uuid} {now : Time} (hfits : Fits r t) :
    truthy (r.assigned tid t uuid.1 now).sandbox = true ∧
      (t.assigned id uuid.1).sandbox = (r.assigned tid t uuid.1 now).sandbox := by
  have hsettled := t.truthy_settledSandbox uuid.2
  cases htruthy : truthy r.sandbox with
  | false => simp [Resource.assigned, Ticket.assigned, htruthy, hsettled]
  | true =>
      have heq : r.sandbox = t.sandbox := hfits.sandbox.resolve_left (by simp [htruthy])
      have htruthy' : truthy t.sandbox = true := heq ▸ htruthy
      simp [Resource.assigned, Ticket.assigned, Ticket.settledSandbox, htruthy', heq]

/-- Every action keeps tickets and resources in one sandbox. -/
theorem Sandboxed.step (h : Sandboxed w.db) {ok : World → Action → Prop}
    (hrun : Reaches ok as w) (hstep : w.step a = some w') : Sandboxed w'.db := by
  have hlinked := hrun.inv.linked
  have hsteps := step_cases hstep
  refine ⟨fun {tid t' id r'} ht' hid hr' => ?_, fun {id r'} hr' hsandbox => ?_⟩
  · cases ht : w.db.tickets.get? tid with
    | none =>
        obtain ⟨tags, sandbox, -, -, -, rfl⟩ := hsteps.taken hlinked ht' ht
        contradiction
    | some t =>
        obtain ⟨t₁, ht₁, hrow⟩ := hsteps.ticket hlinked ht
        obtain rfl := Option.some.inj (ht'.symm.trans ht₁)
        -- a ticket that was assigned before keeps its resource and its sandbox
        have hkept : t.resourceId = some id → t'.sandbox = t.sandbox →
            truthy r'.sandbox = true ∧ t'.sandbox = r'.sandbox := by
          intro hid₀ hsame
          obtain ⟨r, hr, -⟩ := hlinked.resource ht hid₀
          obtain ⟨r₁, hr₁, hrrow⟩ := hsteps.resource hlinked hr
          obtain rfl := Option.some.inj (hr'.symm.trans hr₁)
          obtain ⟨htruthy, hone⟩ := h.ticket ht hid₀ hr
          rcases hrrow.sandbox with heq | ⟨hfalse, -⟩
          · rw [heq, hsame]
            exact ⟨htruthy, hone⟩
          · simp [htruthy] at hfalse
        cases hrow with
        | @assigned i j hassign =>
            obtain rfl : j = id := by simpa [Ticket.assigned] using hid
            obtain ⟨r, t₀, hr, ht₀, hfits, -⟩ := Reaches.fits hrun hassign
            obtain rfl := Option.some.inj (ht.symm.trans ht₀)
            obtain ⟨i', c, queue, queue', ids, hi, -, -, -, rfl⟩ :=
              step_of_assignment hassign hstep
            obtain rfl : i = i' := by simpa using hi
            simp only [assignTicket_resource _ _ _ _ _ ht, if_true, hr, Option.map_some,
              Option.some.injEq] at hr'
            rw [← hr']
            exact assigned_sandbox _ hfits
        | same => exact hkept hid rfl
        | closed => exact hkept hid rfl
        | killed => exact hkept hid rfl
  · cases hr : w.db.resources.get? id with
    | none =>
        obtain ⟨i, c, p, rest, name, -, -, -, rfl⟩ := hsteps.created hlinked hr' hr
        exact absurd rfl hsandbox
    | some r =>
        obtain ⟨r₁, hr₁, hrow⟩ := hsteps.resource hlinked hr
        obtain rfl := Option.some.inj (hr'.symm.trans hr₁)
        rcases hrow.sandbox with heq | ⟨-, i, tid, t, -, hassign, ht, rfl⟩
        · rw [heq] at hsandbox ⊢
          exact h.resource hr hsandbox
        · obtain ⟨r₀, t₀, hr₀, ht₀, hfits, -⟩ := Reaches.fits hrun hassign
          obtain rfl := Option.some.inj (hr.symm.trans hr₀)
          obtain rfl := Option.some.inj (ht.symm.trans ht₀)
          exact (assigned_sandbox id hfits).1

/-- Tickets and resources are in one sandbox in every reachable state. -/
theorem Reaches.sandboxed {ok : World → Action → Prop} (h : Reaches ok as w) :
    Sandboxed w.db := by
  induction h with
  | refl => exact ⟨by simp [init], by simp [init]⟩
  | snoc hrun _ hstep ih => exact ih.step hrun hstep

/-! ## Generated sandboxes -/

/-- Tickets persist along a run, with a sandbox that is not empty. -/
theorem Reaches.ticket_kept {ok : World → Action → Prop} (hrun : Reaches ok as u)
    (hrest : Path step ok u bs v) (ht : u.db.tickets.get? tid = some t) :
    ∃ t', v.db.tickets.get? tid = some t' ∧
      (truthy t.sandbox = true → t'.sandbox = t.sandbox) := by
  induction hrest with
  | refl => exact ⟨t, ht, fun _ => rfl⟩
  | snoc hprev hok hstep ih =>
      obtain ⟨t₁, ht₁, hkept⟩ := ih
      have hinv := Reaches.inv (hrun.append hprev)
      obtain ⟨t', ht', hrow⟩ := (step_cases hstep).ticket hinv.linked ht₁
      refine ⟨t', ht', fun htruthy => ?_⟩
      have heq := hkept htruthy
      cases hrow with
      | assigned i hassign =>
          rw [← heq] at htruthy ⊢
          simp [Ticket.assigned, Ticket.settledSandbox, htruthy]
      | _ => exact heq

/-- A ticket that later carries the value that was generated for another one was
taken later, with exactly that value. -/
theorem Reaches.generated_taken (hrun : Reaches FreshUuid as u)
    (hrest : Path step FreshUuid u bs v) {uuid : Uuid}
    (ht : u.db.tickets.get? tid = some t) (htsandbox : t.sandbox = some uuid.1)
    (hfresh : ∀ j s, u.db.tickets.get? j = some s → s.sandbox = some uuid.1 → j = tid) :
    ∀ j s, v.db.tickets.get? j = some s → s.sandbox = some uuid.1 →
      j = tid ∨ u.db.tickets.nextId ≤ j ∧ (j, some uuid.1) ∈ observe taken? step u bs := by
  have huuid : truthy (some uuid.1) = true := (truthy_some _).mpr uuid.2
  induction hrest with
  | refl => exact fun j s hs hsandbox => .inl (hfresh j s hs hsandbox)
  | @snoc bs x y a hprev hok hstep ih =>
      intro j s' hs' hsandbox
      have hrunx := hrun.append hprev
      have hlinked := (Reaches.inv hrunx).linked
      rw [hprev.observe_snoc _ hstep]
      cases hs : x.db.tickets.get? j with
      | none =>
          obtain ⟨tags, sandbox, rfl, htags, rfl, rfl⟩ := (step_cases hstep).taken hlinked hs' hs
          refine .inr ⟨IdTable.nextId_le_of_get? fun k t₀ ht₀ => ?_, ?_⟩
          · obtain ⟨t', ht', -⟩ := Reaches.ticket_kept hrun hprev ht₀
            exact ⟨t', ht'⟩
          · obtain rfl : sandbox = some uuid.1 := hsandbox
            simp [taken?, htags]
      | some s =>
          have hold : s.sandbox = some uuid.1 → j = tid ∨ u.db.tickets.nextId ≤ j ∧
              (j, some uuid.1) ∈ observe taken? step u bs ++ (x.taken? a).toList := fun heq =>
            (ih j s hs heq).imp_right fun ⟨hle, hmem⟩ => ⟨hle, List.mem_append_left _ hmem⟩
          obtain ⟨s₁, hs₁, hrow⟩ := (step_cases hstep).ticket hlinked hs
          obtain rfl := Option.some.inj (hs'.symm.trans hs₁)
          cases hrow with
          | assigned i hassign =>
              cases htruthy : truthy s.sandbox with
              | true =>
                  refine hold ?_
                  simpa [Ticket.assigned, Ticket.settledSandbox, htruthy] using hsandbox
              | false =>
                  -- the value would have been generated twice
                  have hgen : i.uuid.1 = uuid.1 := by
                    simpa [Ticket.assigned, Ticket.settledSandbox, htruthy] using hsandbox
                  obtain ⟨t', ht', hkept⟩ := Reaches.ticket_kept hrun hprev ht
                  refine absurd ?_ (hok i.uuid.1 (by simp [generated?, hassign, hs, htruthy]) _
                    (IdTable.mem_entries.mpr ht'))
                  rw [hgen, hkept (htsandbox ▸ huuid), htsandbox]
          | same | closed | killed => exact hold hsandbox

/-! ## Isolation -/

/-- Tickets share a resource only within a sandbox, a resource keeps its sandbox,
and a ticket taken without a sandbox shares its resource only with tickets taken
after its assignment, by a client that supplied the generated value. -/
structure SandboxIsolation (as : List Action) (w : World) : Prop where
  shared : ∀ id tid tid' t t', (id, tid) ∈ assignments as → (id, tid') ∈ assignments as →
    w.db.tickets.get? tid = some t → w.db.tickets.get? tid' = some t' → t.sandbox = t'.sandbox
  constant : ∀ bs v id r s, Path step FreshUuid w bs v → w.db.resources.get? id = some r →
    r.sandbox = some s → ∃ r', v.db.resources.get? id = some r' ∧ r'.sandbox = some s
  alone : ∀ id tid tid' sandbox t, (tid, sandbox) ∈ taken as → truthy sandbox = false →
    (id, tid) ∈ assignments as → (id, tid') ∈ assignments as → tid' ≠ tid →
    w.db.tickets.get? tid = some t →
    ∃ pre a post v, as = pre ++ a :: post ∧ Reaches FreshUuid pre v ∧
      v.assignment? a = some (id, tid) ∧ v.db.tickets.nextId ≤ tid' ∧ (tid', t.sandbox) ∈ taken as

/-- The tickets of one resource carry one sandbox. -/
theorem Reaches.shared {ok : World → Action → Prop} (h : Reaches ok as w) {tid' : TicketId}
    (hmem : (id, tid) ∈ assignments as) (hmem' : (id, tid') ∈ assignments as)
    (ht : w.db.tickets.get? tid = some t) (ht' : w.db.tickets.get? tid' = some t') :
    t.sandbox = t'.sandbox := by
  obtain ⟨t₁, ht₁, hid⟩ := h.mem_assignments hmem
  obtain ⟨t₂, ht₂, hid'⟩ := h.mem_assignments hmem'
  obtain rfl := Option.some.inj (ht.symm.trans ht₁)
  obtain rfl := Option.some.inj (ht'.symm.trans ht₂)
  obtain ⟨r, hr, -⟩ := h.inv.linked.resource ht hid
  rw [(h.sandboxed.ticket ht hid hr).2, (h.sandboxed.ticket ht' hid' hr).2]

/-- The sandbox of a resource is constant. -/
theorem Reaches.constant {ok : World → Action → Prop} (h : Reaches ok as w)
    (hrest : Path step ok w bs v) {s : String} (hr : w.db.resources.get? id = some r)
    (hs : r.sandbox = some s) : ∃ r', v.db.resources.get? id = some r' ∧ r'.sandbox = some s := by
  induction hrest with
  | refl => exact ⟨r, hr, hs⟩
  | snoc hprev hok hstep ih =>
      obtain ⟨r₁, hr₁, hs₁⟩ := ih
      have hrun := h.append hprev
      obtain ⟨r', hr', hrow⟩ := (step_cases hstep).resource (Reaches.inv hrun).linked hr₁
      refine ⟨r', hr', ?_⟩
      rcases hrow.sandbox with heq | ⟨hfalse, -⟩
      · rw [heq, hs₁]
      · have htruthy := (Reaches.sandboxed hrun).resource hr₁ (by simp [hs₁])
        simp [htruthy] at hfalse

/-- A ticket taken without a sandbox is alone on its resource, up to clients that
supply its generated sandbox. -/
theorem Reaches.alone (h : Reaches FreshUuid as w) {tid' : TicketId} {sandbox : Option String}
    (htaken : (tid, sandbox) ∈ taken as) (hfalse : truthy sandbox = false)
    (hmem : (id, tid) ∈ assignments as) (hmem' : (id, tid') ∈ assignments as) (hne : tid' ≠ tid)
    (ht : w.db.tickets.get? tid = some t) :
    ∃ pre a post v, as = pre ++ a :: post ∧ Reaches FreshUuid pre v ∧
      v.assignment? a = some (id, tid) ∧ v.db.tickets.nextId ≤ tid' ∧
      (tid', t.sandbox) ∈ taken as := by
  obtain ⟨pre, a, post, v, v', rfl, hpre, hok, hassign, hstep, hpost⟩ :=
    Path.exists_of_mem_observe assignment? h hmem
  obtain ⟨r₀, t₀, hr₀, ht₀, hfits, hnone, -⟩ := Reaches.fits hpre hassign
  have hall : taken (pre ++ a :: post) = taken pre ++ observe taken? step v (a :: post) :=
    hpre.observe_append _ _
  -- the ticket still has no sandbox when it is assigned
  have hsandbox : truthy t₀.sandbox = false := by
    obtain ⟨sandbox', hmem₀, hkept⟩ := Reaches.exists_taken hpre ht₀
    have hmem₁ : (tid, sandbox') ∈ taken (pre ++ a :: post) := by
      rw [hall]
      exact List.mem_append_left _ hmem₀
    have heq := List.inj_on_of_nodup_map h.taken_nodup.1 hmem₁ htaken rfl
    rw [hkept (.inr hnone), (Prod.mk.inj heq).2, hfalse]
  obtain ⟨i, c, queue, queue', ids, rfl, -, -, -, hv'⟩ := step_of_assignment hassign hstep
  have hfresh : ∀ j s, v.db.tickets.get? j = some s → s.sandbox ≠ some i.uuid.1 :=
    fun j s hs => hok i.uuid.1 (by simp [generated?, hassign, ht₀, hsandbox]) _
      (IdTable.mem_entries.mpr hs)
  have hassigned : v'.db.tickets.get? tid = some (t₀.assigned id i.uuid.1) := by
    simp [hv', ht₀]
  have hgenerated : (t₀.assigned id i.uuid.1).sandbox = some i.uuid.1 := by
    simp [Ticket.assigned, Ticket.settledSandbox, hsandbox]
  have hrun' : Reaches FreshUuid (pre ++ [.manager i]) v' := .snoc hpre hok hstep
  have hlater := Reaches.generated_taken hrun' hpost hassigned hgenerated (fun j s hs hj => by
    by_contra hjne
    simp only [hv', assignTicket_ticket, if_neg hjne] at hs
    exact hfresh j s hs hj)
  -- the ticket of the same resource carries the generated value in the end
  obtain ⟨t', ht', -⟩ := h.mem_assignments hmem'
  obtain ⟨t₁, ht₁, hkept⟩ := Reaches.ticket_kept hrun' hpost hassigned
  obtain rfl := Option.some.inj (ht.symm.trans ht₁)
  have hfinal : t.sandbox = some i.uuid.1 := by
    rw [hkept (hgenerated ▸ (truthy_some _).mpr i.uuid.2), hgenerated]
  have hshared := h.shared hmem hmem' ht ht'
  refine ⟨pre, _, post, v, rfl, hpre, hassign, ?_⟩
  rcases hlater tid' t' ht' (hshared ▸ hfinal) with heq | ⟨hle, hmem₁⟩
  · exact absurd heq hne
  · refine ⟨?_, ?_⟩
    · simpa [hv', assignTicket, Db.modifyResource, Db.modifyTicket] using hle
    · rw [hall, hfinal, observe, hstep]
      exact List.mem_append_right _ (List.mem_append_right _ hmem₁)

/-- Sandboxes isolate the tickets of every run in which generated values are
fresh. -/
theorem Reaches.isolated (h : Reaches FreshUuid as w) : SandboxIsolation as w where
  shared _ _ _ _ _ hmem hmem' ht ht' := h.shared hmem hmem' ht ht'
  constant _ _ _ _ _ hrest hr hs := h.constant hrest hr hs
  alone _ _ _ _ _ htaken hfalse hmem hmem' hne ht := h.alone htaken hfalse hmem hmem' hne ht

/-- A pool that gives released resources to tickets of the same sandbox. -/
def reusePool : Pool := { basicPool with reuseOpportunityTime := 100 }

/-- A ticket without a sandbox is served and closed, and a client takes a ticket
with the sandbox that was generated for it. -/
def reusingRun : List Action :=
  let config : Config := .single reusePool (by decide +kernel)
  .takeTicket [] none :: ticks config 8 ++ List.replicate 3 (.worker 1 { now := 20 }) ++
    ticks config 4 ++ [.closeTicket 1, .takeTicket [] (some "uuid")] ++ ticks config 10

/-- The generated value of the run is fresh when it is generated. -/
theorem isolated_reusingRun :
    SandboxIsolation reusingRun (after FreshUuid reusingRun (by decide +kernel)) :=
  Reaches.isolated (reaches_after FreshUuid reusingRun (by decide +kernel))

/-- A ticket taken without a sandbox can share its resource. -/
theorem generated_shared :
    ¬ ∀ as w, Reaches FreshUuid as w → ∀ id tid tid' sandbox, (tid, sandbox) ∈ taken as →
      truthy sandbox = false → (id, tid) ∈ assignments as → (id, tid') ∈ assignments as →
      tid' = tid := by
  intro h
  have hsame := h reusingRun _ (reaches_after FreshUuid reusingRun (by decide +kernel)) 1 1 2 none
    (by decide +kernel) rfl (by decide +kernel) (by decide +kernel)
  contradiction

end World

end Resalloc
