import Mathlib.Data.List.Nodup
import Mathlib.Logic.Function.Basic
import Resalloc.Foundations.Runs

/-!
# Leases

A service lends items to requests.  A request is made, gets at most one item, and is finished
by its client at any time, also before it got an item.  The service takes an item back from a
finished request and lends it again, or it retires the item for ever; an open request whose item
is retired has failed.  The file gives this protocol as a machine over arbitrary requests and
items, and proves what its clients rely on.

Main results:

- Definitions {lit}`Leases` and {lit}`Leases.step`: the protocol.
- Theorem {lit}`Leases.inv`: who holds what, in every reachable state.
- Theorem {lit}`Leases.given_once`: no request is served twice.
- Theorem {lit}`Leases.finished_between`: an item is lent again only after the request that had
  it was finished.
- Theorem {lit}`Leases.retireAll_path`, {lit}`Leases.reclaimAll_path`: many items at once.
-/

namespace Foundations

/-! ## The protocol -/

/-- What became of a request. -/
inductive Stage
  | opened
  | finished
  | failed
deriving DecidableEq

/-- What became of an item. -/
inductive Phase
  /-- It is prepared, or cleaned up after a lease. -/
  | busy
  | offered
  | retired
deriving DecidableEq

/-- The state of the service. -/
structure Leases (T R : Type) where
  stage : T → Option Stage
  /-- The item that a request has got, now or earlier. -/
  given : T → Option R
  phase : R → Option Phase
  /-- The request that an item is lent to now. -/
  holder : R → Option T

/-- What happens to the service. -/
inductive LeaseEvent (T R : Type)
  | request (t : T)
  | finish (t : T)
  | give (t : T) (r : R)
  | enrol (r : R)
  | offer (r : R)
  | reclaim (r : R) (rests : Bool)
  | retire (r : R)
deriving DecidableEq

/-- Events that a client of the service sees. -/
def LeaseEvent.visible {T R : Type} : LeaseEvent T R → Bool
  | .request _ | .finish _ | .give _ _ => true
  | .enrol _ | .offer _ | .reclaim _ _ | .retire _ => false

/-- The request that an event serves. -/
def LeaseEvent.serves? {T R : Type} : LeaseEvent T R → Option T
  | .give t _ => some t
  | _ => none

namespace Leases

variable {T R : Type} [DecidableEq T] [DecidableEq R]

/-- The service before the first request, without items. -/
def empty : Leases T R where
  stage _ := none
  given _ := none
  phase _ := none
  holder _ := none

/-- The service after an item was retired. -/
def retire (s : Leases T R) (r : R) : Leases T R where
  stage t := if s.holder r = some t ∧ s.stage t = some .opened then some .failed else s.stage t
  given := s.given
  phase := Function.update s.phase r (some .retired)
  holder := Function.update s.holder r none

/-- The service after an item was taken back. -/
def reclaim (s : Leases T R) (r : R) (rests : Bool) : Leases T R :=
  { s with
    phase := if rests then Function.update s.phase r (some .busy) else s.phase
    holder := Function.update s.holder r none }

/-- The effect of an event; {lean}`none` if it cannot happen. -/
def step (s : Leases T R) : LeaseEvent T R → Option (Leases T R)
  | .request t =>
      if s.stage t = none then
        some { s with stage := Function.update s.stage t (some .opened) }
      else none
  | .finish t =>
      if s.stage t = none then none
      else some { s with stage := Function.update s.stage t (some .finished) }
  | .give t r =>
      if (s.stage t = some .opened ∨ s.stage t = some .finished) ∧ s.given t = none ∧
          s.phase r = some .offered ∧ s.holder r = none then
        some { s with
          given := Function.update s.given t (some r)
          holder := Function.update s.holder r (some t) }
      else none
  | .enrol r =>
      if s.phase r = none then some { s with phase := Function.update s.phase r (some .busy) }
      else none
  | .offer r =>
      if s.phase r = some .busy then
        some { s with phase := Function.update s.phase r (some .offered) }
      else none
  | .reclaim r rests =>
      if (s.holder r).bind s.stage = some .finished then some (s.reclaim r rests) else none
  | .retire r =>
      if s.phase r = some .busy ∨ s.phase r = some .offered then some (s.retire r) else none

/-- What an event does, and when it can happen. -/
inductive Steps (s : Leases T R) : LeaseEvent T R → Leases T R → Prop
  | request {t} : s.stage t = none →
      Steps s (.request t) { s with stage := Function.update s.stage t (some .opened) }
  | finish {t} : s.stage t ≠ none →
      Steps s (.finish t) { s with stage := Function.update s.stage t (some .finished) }
  | give {t r} : s.stage t = some .opened ∨ s.stage t = some .finished → s.given t = none →
      s.phase r = some .offered → s.holder r = none →
      Steps s (.give t r)
        { s with
          given := Function.update s.given t (some r)
          holder := Function.update s.holder r (some t) }
  | enrol {r} : s.phase r = none →
      Steps s (.enrol r) { s with phase := Function.update s.phase r (some .busy) }
  | offer {r} : s.phase r = some .busy →
      Steps s (.offer r) { s with phase := Function.update s.phase r (some .offered) }
  | reclaim {t r} (rests : Bool) : s.holder r = some t → s.stage t = some .finished →
      Steps s (.reclaim r rests) (s.reclaim r rests)
  | retire {r} : s.phase r = some .busy ∨ s.phase r = some .offered →
      Steps s (.retire r) (s.retire r)

variable {s s' : Leases T R} {e : LeaseEvent T R} {es : List (LeaseEvent T R)} {t : T} {r : R}

/-- The outcomes of {lit}`step`. -/
theorem step_eq_some_iff : s.step e = some s' ↔ s.Steps e s' := by
  constructor
  · intro h
    cases e with
    | reclaim r rests =>
        simp only [step] at h
        split_ifs at h with hfinished
        obtain ⟨t, hheld, hstage⟩ := Option.bind_eq_some_iff.mp hfinished
        obtain rfl := Option.some.inj h
        exact .reclaim rests hheld hstage
    | finish t =>
        simp only [step] at h
        split_ifs at h with hnew
        obtain rfl := Option.some.inj h
        exact .finish hnew
    | give t r =>
        simp only [step] at h
        split_ifs at h with hgive
        obtain rfl := Option.some.inj h
        exact .give hgive.1 hgive.2.1 hgive.2.2.1 hgive.2.2.2
    | request t =>
        simp only [step] at h
        split_ifs at h with hnew
        obtain rfl := Option.some.inj h
        exact .request hnew
    | enrol r =>
        simp only [step] at h
        split_ifs at h with hnew
        obtain rfl := Option.some.inj h
        exact .enrol hnew
    | offer r =>
        simp only [step] at h
        split_ifs at h with hbusy
        obtain rfl := Option.some.inj h
        exact .offer hbusy
    | retire r =>
        simp only [step] at h
        split_ifs at h with hphase
        obtain rfl := Option.some.inj h
        exact .retire hphase
  · intro h
    cases h <;> simp_all [step]

/-- One event is a run of the service. -/
theorem Steps.path (h : s.Steps e s') : Path step anyStep s [e] s' :=
  .single trivial (step_eq_some_iff.mpr h)

/-! ## Who holds what -/

/-- What holds between requests and items. -/
structure Inv (s : Leases T R) : Prop where
  /-- A lent item is offered, and its request got it and has not failed. -/
  holder : ∀ {t r}, s.holder r = some t →
    s.given t = some r ∧ s.phase r = some .offered ∧ s.stage t ≠ some .failed
  /-- An open request keeps its item. -/
  opened : ∀ {t r}, s.stage t = some .opened → s.given t = some r → s.holder r = some t
  /-- A request fails with its item. -/
  failed : ∀ {t}, s.stage t = some .failed →
    ∃ r, s.given t = some r ∧ s.phase r = some .retired
  /-- Only requests that were made get items. -/
  given : ∀ {t}, s.stage t = none → s.given t = none

omit [DecidableEq T] [DecidableEq R] in
/-- Nothing is lent at the start. -/
theorem inv_empty : (empty : Leases T R).Inv := by
  constructor <;> simp [empty]

/-- Every event keeps what holds between requests and items. -/
theorem Inv.step (h : s.Inv) (hstep : s.Steps e s') : s'.Inv := by
  obtain ⟨hholder, hopened, hfailed, hgiven⟩ := h
  cases hstep with
  | request hnew => constructor <;> grind [Function.update_apply]
  | finish hmade => constructor <;> grind [Function.update_apply]
  | give hstage hnone hoffered hfree => constructor <;> grind [Function.update_apply]
  | enrol hnew => constructor <;> grind [Function.update_apply]
  | offer hbusy => constructor <;> grind [Function.update_apply]
  | @reclaim t r rests hheld hfinished =>
      have hphase : ∀ {r'}, s.phase r' = some .retired →
          (s.reclaim r rests).phase r' = some .retired := by
        intro r' hretired
        have hne : r' ≠ r := by grind
        cases rests <;> simp [reclaim, hne, hretired]
      constructor
      · intro t' r' hheld'
        cases rests <;> simp only [reclaim] at * <;> grind [Function.update_apply]
      · simp only [reclaim]
        grind [Function.update_apply]
      · intro t' hfailed'
        obtain ⟨r', hr', hretired⟩ := hfailed hfailed'
        exact ⟨r', hr', hphase hretired⟩
      · exact hgiven
  | @retire r hphase =>
      constructor
      all_goals simp only [Leases.retire]
      all_goals grind [Function.update_apply]

/-- Every reachable state keeps what holds between requests and items. -/
theorem inv (hrun : Path step anyStep (empty : Leases T R) es s) : s.Inv :=
  hrun.invariant inv_empty fun _ _ _ hinv _ hstep => hinv.step (step_eq_some_iff.mp hstep)

/-! ## What clients rely on -/

/-- A request is finished when its client has finished it. -/
theorem finished_iff (hrun : Path step anyStep (empty : Leases T R) es s) :
    s.stage t = some .finished ↔ .finish t ∈ es := by
  induction hrun with
  | refl => simp [empty]
  | @snoc es s s' e hprev _ hnext ih =>
      rw [List.mem_append, ← ih, List.mem_singleton]
      cases step_eq_some_iff.mp hnext with
      | request hnew => grind [Function.update_apply]
      | @finish t' hmade => grind [Function.update_apply]
      | @retire r hphase =>
          simp only [Leases.retire]
          grind
      | give | enrol | offer | reclaim => simp [reclaim]

/-- A request that was served has got an item. -/
theorem Steps.given_ne_none (h : s.Steps e s') :
    (s.given t ≠ none → s'.given t ≠ none) ∧
      (e.serves? = some t → s.given t = none ∧ s'.given t ≠ none) := by
  cases h with
  | @give t' r' hstage hnone hoffered hfree =>
      constructor
      · intro hgiven
        simp only [Function.update_apply]
        split_ifs <;> simp [hgiven]
      · intro hserves
        obtain rfl := Option.some.inj hserves
        exact ⟨hnone, by simp⟩
  | request | finish | enrol | offer | reclaim | retire =>
      exact ⟨fun hgiven => hgiven, by simp [LeaseEvent.serves?]⟩

/-- No request is served twice. -/
theorem given_once (hrun : Path step anyStep (empty : Leases T R) es s) :
    (es.filterMap LeaseEvent.serves?).Nodup := by
  have hserved : (es.filterMap LeaseEvent.serves?).Nodup ∧
      ∀ t ∈ es.filterMap LeaseEvent.serves?, s.given t ≠ none := by
    induction hrun with
    | refl => simp
    | @snoc es s s' e hprev _ hnext ih =>
        obtain ⟨hnodup, hgiven⟩ := ih
        have hsteps := step_eq_some_iff.mp hnext
        rw [List.filterMap_append]
        cases hserves : e.serves? with
        | none =>
            rw [List.filterMap_cons_none hserves, List.filterMap_nil, List.append_nil]
            exact ⟨hnodup, fun t ht => hsteps.given_ne_none.1 (hgiven t ht)⟩
        | some t =>
            obtain ⟨hnone, hsome⟩ := hsteps.given_ne_none.2 hserves
            rw [List.filterMap_cons_some hserves, List.filterMap_nil]
            constructor
            · apply List.nodup_append.mpr
              refine ⟨hnodup, List.nodup_singleton t, ?_⟩
              rintro t' ht' _ hmem rfl
              obtain rfl := List.mem_singleton.mp hmem
              exact hgiven t' ht' hnone
            · intro t' ht'
              rcases List.mem_append.mp ht' with hold | hnew
              · exact hsteps.given_ne_none.1 (hgiven t' hold)
              · obtain rfl := List.mem_singleton.mp hnew
                exact hsome
  exact hserved.1

/-- A lent item stays lent to its request, until this is finished or the item is retired. -/
theorem Inv.lent (hinv : s.Inv) (h : s.Steps e s')
    (hlent : s.holder r = some t ∨ s.phase r = some .retired ∨ s.stage t = some .finished) :
    s'.holder r = some t ∨ s'.phase r = some .retired ∨ s'.stage t = some .finished := by
  cases h with
  | reclaim rests hheld hfinished =>
      have hoffered := (hinv.holder hheld).2.1
      cases rests <;> simp only [reclaim] <;> grind [Function.update_apply]
  | retire hphase =>
      simp only [Leases.retire]
      grind [Function.update_apply]
  | request | finish | give | enrol | offer => grind [Function.update_apply]

/-- An item is lent again only after the request that had it was finished. -/
theorem finished_between {pre mid post : List (LeaseEvent T R)} {t' : T}
    (hrun : Path step anyStep (empty : Leases T R)
      (pre ++ .give t r :: mid ++ .give t' r :: post) s) :
    .finish t ∈ pre ++ mid := by
  obtain ⟨u, hbefore, hlater⟩ := hrun.split
  obtain ⟨v, -, hagain, -⟩ := hlater.cons_inv
  obtain ⟨x, hpre, hrest⟩ := hbefore.split
  obtain ⟨y, -, hfirst, hmid⟩ := hrest.cons_inv
  have hheld : y.holder r = some t := by
    cases step_eq_some_iff.mp hfirst with
    | give => simp
  have hstart : y.Inv := (inv hpre).step (step_eq_some_iff.mp hfirst)
  obtain ⟨-, hlent⟩ := hmid.invariant (P := fun s => s.Inv ∧
      (s.holder r = some t ∨ s.phase r = some .retired ∨ s.stage t = some .finished))
    ⟨hstart, .inl hheld⟩ fun _ _ _ hkept _ hstep =>
      ⟨hkept.1.step (step_eq_some_iff.mp hstep), hkept.1.lent (step_eq_some_iff.mp hstep) hkept.2⟩
  cases step_eq_some_iff.mp hagain with
  | give hstage hnone hoffered hfree =>
      rcases hlent with hholder | hretired | hfinished
      · simp [hfree] at hholder
      · simp [hoffered] at hretired
      · have hmem := (finished_iff hbefore).mp hfinished
        simpa using hmem

omit [DecidableEq T] [DecidableEq R] in
/-- Requests are served by visible events. -/
theorem serves_visible (es : List (LeaseEvent T R)) :
    (es.filter LeaseEvent.visible).filterMap LeaseEvent.serves? =
      es.filterMap LeaseEvent.serves? := by
  rw [List.filterMap_filter]
  congr 1
  ext e : 1
  cases e <;> rfl

/-- The same about the events that a client sees. -/
theorem finished_between_visible {pre mid post : List (LeaseEvent T R)} {t' : T}
    (hrun : Path step anyStep (empty : Leases T R) es s)
    (hvisible : es.filter LeaseEvent.visible = pre ++ .give t r :: mid ++ .give t' r :: post) :
    .finish t ∈ pre ++ mid := by
  obtain ⟨before, after, rfl, hbefore, hafter⟩ := List.filter_eq_append_iff.mp hvisible
  obtain ⟨first, rest, rfl, hfirst, hrest⟩ := List.filter_eq_append_iff.mp hbefore
  obtain ⟨skip, between, rfl, hskip, -, hbetween⟩ := List.filter_eq_cons_iff.mp hrest
  obtain ⟨skip', last, rfl, hskip', -, -⟩ := List.filter_eq_cons_iff.mp hafter
  have hmem := @finished_between T R _ _ s t r (first ++ skip) (between ++ skip') last t'
    (by simpa using hrun)
  have hfinish : .finish t ∈ ((first ++ skip) ++ (between ++ skip')).filter LeaseEvent.visible :=
    List.mem_filter.mpr ⟨hmem, rfl⟩
  have hnone : skip.filter LeaseEvent.visible = [] := List.filter_eq_nil_iff.mpr hskip
  have hnone' : skip'.filter LeaseEvent.visible = [] := List.filter_eq_nil_iff.mpr hskip'
  simpa [List.filter_append, hfirst, hbetween, hnone, hnone'] using hfinish

/-! ## Many items at once -/

/-- The service after some items were retired. -/
def retireAll (s : Leases T R) (rs : List R) : Leases T R where
  stage t :=
    if (∃ r ∈ rs, s.holder r = some t) ∧ s.stage t = some .opened then some .failed
    else s.stage t
  given := s.given
  phase r := if r ∈ rs then some .retired else s.phase r
  holder r := if r ∈ rs then none else s.holder r

/-- The service after some items were taken back. -/
def reclaimAll (s : Leases T R) (rs : List R) (rests : Bool) : Leases T R :=
  { s with
    phase := fun r => if rests ∧ r ∈ rs then some .busy else s.phase r
    holder := fun r => if r ∈ rs then none else s.holder r }

/-- Items in service can be retired one after another. -/
theorem retireAll_path {rs : List R} (hnodup : rs.Nodup)
    (hphase : ∀ r ∈ rs, s.phase r = some .busy ∨ s.phase r = some .offered) :
    Path step anyStep s (rs.map .retire) (s.retireAll rs) := by
  induction rs generalizing s with
  | nil =>
      have heq : s.retireAll [] = s := by simp [retireAll]
      rw [heq]
      exact .refl
  | cons r rs ih =>
      obtain ⟨hr, hnodup⟩ := List.nodup_cons.mp hnodup
      have hfirst := (Steps.retire (hphase r List.mem_cons_self)).path
      have hrest := @ih (s.retire r) hnodup (by
        intro r' hr'
        have hne : r' ≠ r := fun heq => hr (heq ▸ hr')
        simpa [Leases.retire, hne] using hphase r' (List.mem_cons_of_mem _ hr'))
      have heq : (s.retire r).retireAll rs = s.retireAll (r :: rs) := by
        simp only [retireAll, Leases.retire, Leases.mk.injEq]
        refine ⟨?_, trivial, ?_, ?_⟩
        · ext t : 1
          by_cases hheld : s.holder r = some t
          · by_cases hopened : s.stage t = some .opened <;> simp [hheld, hopened]
          · have hothers : (∃ r' ∈ rs, Function.update s.holder r none r' = some t) ↔
                ∃ r' ∈ rs, s.holder r' = some t := by
              grind [Function.update_apply]
            simp [hheld, hothers]
        · ext r' : 1
          grind [Function.update_apply]
        · ext r' : 1
          grind [Function.update_apply]
      rw [← heq]
      exact hfirst.append hrest

/-- Items of finished requests can be taken back one after another. -/
theorem reclaimAll_path {rs : List R} (rests : Bool) (hnodup : rs.Nodup)
    (hheld : ∀ r ∈ rs, ∃ t, s.holder r = some t ∧ s.stage t = some .finished) :
    Path step anyStep s (rs.map fun r => .reclaim r rests) (s.reclaimAll rs rests) := by
  induction rs generalizing s with
  | nil =>
      have heq : s.reclaimAll [] rests = s := by simp [reclaimAll]
      rw [heq]
      exact .refl
  | cons r rs ih =>
      obtain ⟨hr, hnodup⟩ := List.nodup_cons.mp hnodup
      obtain ⟨t, hholder, hfinished⟩ := hheld r List.mem_cons_self
      have hfirst := (Steps.reclaim rests hholder hfinished).path
      have hrest := @ih (s.reclaim r rests) hnodup (by
        intro r' hr'
        have hne : r' ≠ r := fun heq => hr (heq ▸ hr')
        simpa [reclaim, hne] using hheld r' (List.mem_cons_of_mem _ hr'))
      have heq : (s.reclaim r rests).reclaimAll rs rests = s.reclaimAll (r :: rs) rests := by
        simp only [reclaimAll, reclaim, Leases.mk.injEq]
        refine ⟨trivial, trivial, ?_, ?_⟩
        · ext r' : 1
          cases rests <;> grind [Function.update_apply]
        · ext r' : 1
          grind [Function.update_apply]
      rw [← heq]
      exact hfirst.append hrest

end Leases

end Foundations
