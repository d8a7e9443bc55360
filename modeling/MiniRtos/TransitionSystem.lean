import Mathlib.Algebra.Ring.Nat
import Mathlib.Data.Int.Basic
import Mathlib.Data.List.Basic
import Mathlib.Tactic.Common

/-!
# Deterministic transition systems and their histories

A system is a partial step function: an action chosen by the environment either
is refused or yields an observation and the next state. A history lists the
edges of a run newest first, so that "the last time" is the first match.
Invariants, history invariants and refinements are each proved once here by
induction on the run; a development supplies only what one step does.
-/
namespace MiniRtos.TransitionSystem

/-- One transition together with both of its end points. -/
structure Edge (σ α ω : Type*) where
  src : σ
  act : α
  obs : ω
  dst : σ

/-- Edges of a run, the newest one first. -/
abbrev History (σ α ω : Type*) := List (Edge σ α ω)

section
variable {σ α ω : Type*} (step : σ → α → Option (ω × σ))

inductive Run (s : σ) : History σ α ω → σ → Prop
  | nil : Run s [] s
  | snoc {u v : σ} {tr : History σ α ω} {a : α} {o : ω} :
      Run s tr u → step u a = some (o, v) → Run s (⟨u, a, o, v⟩ :: tr) v

/-- Executes a list of actions, the first one first, and keeps the history. -/
def play (s : σ) : List α → History σ α ω → Option (History σ α ω × σ)
  | [], tr => some (tr, s)
  | a :: as, tr =>
      match step s a with
      | none => none
      | some (o, v) => play v as (⟨s, a, o, v⟩ :: tr)

variable {step}

theorem Run.append {s u v : σ} {tr later : History σ α ω}
    (h : Run step s tr u) (h' : Run step u later v) : Run step s (later ++ tr) v := by
  induction h' with
  | nil => exact h
  | snoc _ hs ih => exact .snoc ih hs

theorem play_run {s₀ s : σ} {as : List α} {tr tr' : History σ α ω} {v : σ}
    (h : Run step s₀ tr s) (hp : play step s as tr = some (tr', v)) :
    Run step s₀ tr' v := by
  induction as generalizing s tr with
  | nil =>
      simp only [play, Option.some.injEq, Prod.mk.injEq] at hp
      obtain ⟨rfl, rfl⟩ := hp
      exact h
  | cons a as ih =>
      simp only [play] at hp
      split at hp
      · cases hp
      · next o u hs => exact ih (.snoc h hs) hp

variable (step) in
/-- The history and the state a list of actions leads to, if none of them is refused. -/
def played (s : σ) (as : List α) : History σ α ω × σ := (play step s as []).getD ([], s)

theorem run_played (s : σ) (as : List α) :
    Run step s (played step s as).1 (played step s as).2 := by
  unfold played
  cases h : play step s as [] with
  | none => exact .nil
  | some r => exact play_run .nil h

theorem step_eq_played {s : σ} {a : α} {o : ω} (h : (step s a).map Prod.fst = some o) :
    step s a = some (o, (played step s [a]).2) := by
  cases hs : step s a with
  | none => simp [hs] at h
  | some r =>
      obtain ⟨o', v⟩ := r
      obtain rfl : o' = o := by simpa [hs] using h
      simp [played, play, hs]

/-- Every edge of a run fired from a state that an initial part of it reached. -/
theorem Run.split {s v : σ} {tr earlier later : History σ α ω} {e : Edge σ α ω}
    (h : Run step s tr v) (ht : tr = later ++ e :: earlier) :
    Run step s earlier e.src ∧ step e.src e.act = some (e.obs, e.dst) ∧
      Run step e.dst later v := by
  induction h generalizing later with
  | nil => simp at ht
  | @snoc u v tr a o hr hs ih =>
      cases later with
      | nil =>
          simp only [List.nil_append, List.cons.injEq] at ht
          obtain ⟨rfl, rfl⟩ := ht
          exact ⟨hr, hs, .nil⟩
      | cons d later =>
          simp only [List.cons_append, List.cons.injEq] at ht
          obtain ⟨rfl, rfl⟩ := ht
          obtain ⟨h₁, h₂, h₃⟩ := ih rfl
          exact ⟨h₁, h₂, .snoc h₃ hs⟩

/-- Every edge of a run is a step from a state that the run passes through. -/
theorem Run.edge {s v : σ} {tr : History σ α ω} {e : Edge σ α ω} (h : Run step s tr v)
    (he : e ∈ tr) :
    (∃ earlier, Run step s earlier e.src) ∧ step e.src e.act = some (e.obs, e.dst) := by
  obtain ⟨later, earlier, ht⟩ := List.append_of_mem he
  obtain ⟨hr, hs, -⟩ := h.split ht
  exact ⟨⟨earlier, hr⟩, hs⟩

/-- A property kept by every step whose edge is admitted holds at the end of
every run all of whose edges are admitted. -/
theorem Run.invariant_on {P : σ → Prop} {Ok : Edge σ α ω → Prop} {s v : σ}
    {tr : History σ α ω} (h : Run step s tr v) (h₀ : P s) (hok : ∀ e ∈ tr, Ok e)
    (hstep : ∀ u a o w, P u → Ok ⟨u, a, o, w⟩ → step u a = some (o, w) → P w) :
    P v := by
  induction h with
  | nil => exact h₀
  | snoc _ hs ih =>
      refine hstep _ _ _ _ (ih fun e he => hok e (by simp [he])) ?_ hs
      exact hok _ (by simp)

/-- The rule for an invariant together with what it says about each step. -/
theorem Run.edge_invariant {P : σ → Prop} {Ok Q : Edge σ α ω → Prop} {s v : σ}
    {tr : History σ α ω} (h : Run step s tr v) (h₀ : P s) (hok : ∀ e ∈ tr, Ok e)
    (hstep : ∀ u a o w, P u → Ok ⟨u, a, o, w⟩ → step u a = some (o, w) →
      P w ∧ Q ⟨u, a, o, w⟩) : P v ∧ ∀ e ∈ tr, Q e := by
  induction h with
  | nil => exact ⟨h₀, by simp⟩
  | snoc _ hs ih =>
      obtain ⟨hu, hbefore⟩ := ih fun e he => hok e (by simp [he])
      obtain ⟨hw, hlast⟩ := hstep _ _ _ _ hu (hok _ (by simp)) hs
      exact ⟨hw, List.forall_mem_cons.mpr ⟨hlast, hbefore⟩⟩

theorem Run.invariant {P : σ → Prop} {s v : σ} {tr : History σ α ω}
    (h : Run step s tr v) (h₀ : P s)
    (hstep : ∀ u a o w, P u → step u a = some (o, w) → P w) : P v :=
  have hok : ∀ e ∈ tr, (fun _ : Edge σ α ω => True) e := fun _ _ => trivial
  h.invariant_on h₀ hok fun u a o w hu _ hs => hstep u a o w hu hs

/-- Where the environment had no choice, any other run goes the same way: one of the two
goes on from where the other ends. -/
theorem Run.comparable {s u v : σ} {tr later : History σ α ω} (h : Run step s tr u)
    (hforced : ∀ e ∈ tr, ∀ a r, step e.src a = some r → a = e.act) (h' : Run step s later v) :
    (∃ rest, Run step u rest v ∧ later = rest ++ tr) ∨
      ∃ rest, Run step v rest u ∧ tr = rest ++ later := by
  induction h with
  | nil => exact .inl ⟨later, h', by simp⟩
  | @snoc u w tr a o _ hs ih =>
      obtain ⟨hlast, hbefore⟩ := List.forall_mem_cons.mp hforced
      rcases ih hbefore with ⟨rest, hr, hlater⟩ | ⟨rest, hr, rfl⟩
      · rcases List.eq_nil_or_concat' rest with rfl | ⟨rest, e, rfl⟩
        · cases hr
          exact .inr ⟨_, .snoc .nil hs, by simpa using hlater.symm⟩
        · obtain ⟨hu, hs', hrest⟩ := hr.split rfl
          obtain ⟨src, a', o', dst⟩ := e
          cases hu
          obtain rfl : a' = a := hlast a' _ hs'
          obtain ⟨rfl, rfl⟩ := Prod.mk.inj (Option.some.inj (hs.symm.trans hs'))
          exact .inl ⟨rest, hrest, by simpa using hlater⟩
      · exact .inr ⟨_, .snoc hr hs, rfl⟩

variable (step) in
/-- What some run from an initial state ends in. -/
def Reachable (init : σ → Prop) (v : σ) : Prop :=
  ∃ s tr, init s ∧ Run step s tr v

theorem Reachable.invariant {P init : σ → Prop} {v : σ}
    (h : Reachable step init v) (h₀ : ∀ s, init s → P s)
    (hstep : ∀ u a o w, P u → step u a = some (o, w) → P w) : P v := by
  obtain ⟨s, tr, hs, hr⟩ := h
  exact hr.invariant (h₀ s hs) hstep

theorem Reachable.extend {init : σ → Prop} {u v : σ} {tr : History σ α ω}
    (h : Reachable step init u) (hr : Run step u tr v) : Reachable step init v := by
  obtain ⟨s, tr₀, hs, hr₀⟩ := h
  exact ⟨s, _, hs, hr₀.append hr⟩

theorem Reachable.edge {init : σ → Prop} {u v : σ} {tr : History σ α ω} {e : Edge σ α ω}
    (h : Reachable step init u) (hr : Run step u tr v) (he : e ∈ tr) :
    Reachable step init e.src ∧ step e.src e.act = some (e.obs, e.dst) := by
  obtain ⟨⟨earlier, hearlier⟩, hs⟩ := hr.edge he
  exact ⟨h.extend hearlier, hs⟩

end

/-- Conditions on an edge that depend on everything that went before it. -/
def Disciplined {σ α ω : Type*} (Ok : Edge σ α ω → History σ α ω → Prop) :
    History σ α ω → Prop
  | [] => True
  | e :: tr => Ok e tr ∧ Disciplined Ok tr

theorem Disciplined.of_forall {σ α ω : Type*} {Ok : Edge σ α ω → Prop}
    {tr : History σ α ω} (h : ∀ e ∈ tr, Ok e) : Disciplined (fun e _ => Ok e) tr := by
  induction tr with
  | nil => trivial
  | cons e tr ih => exact ⟨h e (by simp), ih fun d hd => h d (by simp [hd])⟩

theorem Disciplined.and {σ α ω : Type*} {Ok : Edge σ α ω → History σ α ω → Prop}
    {Ok' : Edge σ α ω → Prop} {tr : History σ α ω} (h : Disciplined Ok tr)
    (h' : ∀ e ∈ tr, Ok' e) : Disciplined (fun e tr => Ok e tr ∧ Ok' e) tr := by
  induction tr with
  | nil => trivial
  | cons e tr ih => exact ⟨⟨h.1, h' e (by simp)⟩, ih h.2 fun d hd => h' d (by simp [hd])⟩

instance Disciplined.decidable {σ α ω : Type*} (Ok : Edge σ α ω → History σ α ω → Prop)
    [∀ e tr, Decidable (Ok e tr)] : ∀ tr, Decidable (Disciplined Ok tr)
  | [] => .isTrue trivial
  | e :: tr =>
      have := Disciplined.decidable Ok tr
      inferInstanceAs (Decidable (Ok e tr ∧ Disciplined Ok tr))

/-- The rule for properties of a state and of the history that led to it. -/
theorem Run.history_invariant {σ α ω : Type*} {step : σ → α → Option (ω × σ)}
    {P : History σ α ω → σ → Prop} {Ok : Edge σ α ω → History σ α ω → Prop}
    {s v : σ} {tr : History σ α ω} (h : Run step s tr v) (h₀ : P [] s)
    (hok : Disciplined Ok tr)
    (hstep : ∀ tr u a o w, P tr u → Ok ⟨u, a, o, w⟩ tr → step u a = some (o, w) →
      P (⟨u, a, o, w⟩ :: tr) w) : P tr v := by
  induction h with
  | nil => exact h₀
  | snoc _ hs ih => exact hstep _ _ _ _ _ (ih hok.2) hok.1 hs

/-- A rank that no admitted step raises and every marked one lowers bounds how often a
marked step can be taken. -/
theorem Run.countP_add_rank_le {σ α ω : Type*} {step : σ → α → Option (ω × σ)}
    {P : σ → Prop} {Ok : Edge σ α ω → Prop} {s v : σ} {tr : History σ α ω}
    (h : Run step s tr v) (marked : Edge σ α ω → Bool) (rank : σ → ℕ) (h₀ : P s)
    (hok : ∀ e ∈ tr, Ok e)
    (hstep : ∀ u a o w, P u → Ok ⟨u, a, o, w⟩ → step u a = some (o, w) →
      P w ∧ (rank w + if marked ⟨u, a, o, w⟩ then 1 else 0) ≤ rank u) :
    P v ∧ tr.countP marked + rank v ≤ rank s := by
  induction h with
  | nil => exact ⟨h₀, by simp⟩
  | snoc _ hs ih =>
      obtain ⟨hu, hcount⟩ := ih fun e he => hok e (by simp [he])
      obtain ⟨hw, hrank⟩ := hstep _ _ _ _ hu (hok _ (by simp)) hs
      refine ⟨hw, ?_⟩
      rw [List.countP_cons]
      omega

theorem sum_toNat {α : Type*} (p : α → Bool) (l : List α) :
    (l.map fun x => (p x).toNat).sum = l.countP p := by
  induction l with
  | nil => rfl
  | cons x l ih =>
      rw [List.map_cons, List.sum_cons, ih, List.countP_cons]
      cases p x <;> simp [Nat.add_comm]

/-- A level that each admitted step raises by its gain and lowers by its loss is balanced
over the whole run. -/
theorem Run.balance {σ α ω : Type*} {step : σ → α → Option (ω × σ)}
    {Ok : Edge σ α ω → Prop} {s v : σ} {tr : History σ α ω} (h : Run step s tr v)
    (level : σ → ℤ) (gain loss : Edge σ α ω → ℕ) (hok : ∀ e ∈ tr, Ok e)
    (hstep : ∀ u a o w, Ok ⟨u, a, o, w⟩ → step u a = some (o, w) →
      level w + loss ⟨u, a, o, w⟩ = level u + gain ⟨u, a, o, w⟩) :
    level v + (tr.map loss).sum = level s + (tr.map gain).sum := by
  induction h with
  | nil => rfl
  | snoc _ hs ih =>
      have hbefore := ih fun e he => hok e (by simp [he])
      have hlast := hstep _ _ _ _ (hok _ (by simp)) hs
      simp only [List.map_cons, List.sum_cons]
      omega

section Bisimulation
variable {σ α ω τ : Type*}

/-- The actions of a history with what they showed, the newest one first. -/
def trace (tr : History σ α ω) : List (α × ω) := tr.map fun e => (e.act, e.obs)

/-- Related states accept the same actions, which show the same and lead to related states. -/
def Bisimulation (step : σ → α → Option (ω × σ)) (step' : τ → α → Option (ω × τ))
    (R : σ → τ → Prop) : Prop :=
  ∀ s t a, R s t → Option.Rel (fun p q => p.1 = q.1 ∧ R p.2 q.2) (step s a) (step' t a)

variable {step : σ → α → Option (ω × σ)} {step' : τ → α → Option (ω × τ)} {R : σ → τ → Prop}

theorem Bisimulation.symm (h : Bisimulation step step' R) :
    Bisimulation step' step fun t s => R s t := by
  intro t s a hr
  have hrel := h s t a hr
  cases hs : step s a <;> cases ht : step' t a <;> rw [hs, ht] at hrel <;> cases hrel
  · exact .none
  · next hrel => exact .some ⟨hrel.1.symm, hrel.2⟩

/-- Each run of the one system is matched by a run of the other. -/
theorem Bisimulation.run (h : Bisimulation step step' R) {s v : σ} {t : τ} {tr : History σ α ω}
    (hr : Run step s tr v) (h₀ : R s t) :
    ∃ tr' w, Run step' t tr' w ∧ trace tr' = trace tr ∧ R v w := by
  induction hr with
  | nil => exact ⟨[], t, .nil, rfl, h₀⟩
  | @snoc u v tr a o _ hs ih =>
      obtain ⟨tr', w, hr', htrace, hw⟩ := ih
      have hrel := h u w a hw
      rw [hs] at hrel
      cases hs' : step' w a with
      | none =>
          rw [hs'] at hrel
          cases hrel
      | some r =>
          rw [hs'] at hrel
          cases hrel with
          | some hrel =>
              obtain ⟨o', w'⟩ := r
              obtain ⟨rfl, hw'⟩ := hrel
              exact ⟨_, w', hr'.snoc hs', congrArg (List.cons (a, o)) htrace, hw'⟩

end Bisimulation

section Refinement
variable {σ α ω τ β υ : Type*}

/-- The abstract labels a concrete history performs; other edges stutter. -/
def labels (label : Edge σ α ω → Option (β × υ)) (tr : History σ α ω) : List (β × υ) :=
  tr.reverse.filterMap label

@[simp] theorem labels_nil (label : Edge σ α ω → Option (β × υ)) :
    labels label [] = [] := rfl

theorem labels_cons (label : Edge σ α ω → Option (β × υ)) (e : Edge σ α ω)
    (tr : History σ α ω) :
    labels label (e :: tr) = labels label tr ++ (label e).toList := by
  cases h : label e <;> simp [labels, h]

/-- Abstract runs, given by their labels alone, the oldest one first. -/
inductive Performs (astep : τ → β → υ × τ) (t : τ) : List (β × υ) → τ → Prop
  | nil : Performs astep t [] t
  | snoc {t' : τ} {ls : List (β × υ)} (b : β) : Performs astep t ls t' →
      Performs astep t (ls ++ [(b, (astep t' b).1)]) (astep t' b).2

/-- Forward simulation: if every admitted concrete step either is silent and keeps
the relation or performs one abstract step with the same observation, then every
run performs an abstract run and ends in a related pair. -/
theorem Run.refines {step : σ → α → Option (ω × σ)} {astep : τ → β → υ × τ}
    {label : Edge σ α ω → Option (β × υ)} {R : τ → σ → Prop}
    {Ok : Edge σ α ω → Prop} {s v : σ} {t : τ} {tr : History σ α ω}
    (h : Run step s tr v) (h₀ : R t s) (hok : ∀ e ∈ tr, Ok e)
    (hsilent : ∀ u a o w t, R t u → Ok ⟨u, a, o, w⟩ → step u a = some (o, w) →
      label ⟨u, a, o, w⟩ = none → R t w)
    (hlabel : ∀ u a o w t b y, R t u → Ok ⟨u, a, o, w⟩ → step u a = some (o, w) →
      label ⟨u, a, o, w⟩ = some (b, y) → y = (astep t b).1 ∧ R (astep t b).2 w) :
    ∃ t', Performs astep t (labels label tr) t' ∧ R t' v := by
  induction h with
  | nil => exact ⟨t, .nil, h₀⟩
  | @snoc u v tr a o _ hs ih =>
      obtain ⟨t', hp, hr⟩ := ih fun e he => hok e (by simp [he])
      have hOk := hok ⟨u, a, o, v⟩ (by simp)
      rw [labels_cons]
      cases hl : label ⟨u, a, o, v⟩ with
      | none => exact ⟨t', by simpa using hp, hsilent _ _ _ _ _ hr hOk hs hl⟩
      | some l =>
          obtain ⟨b, y⟩ := l
          obtain ⟨rfl, hr'⟩ := hlabel _ _ _ _ _ _ _ hr hOk hs hl
          exact ⟨_, by simpa using hp.snoc b, hr'⟩

end Refinement

end MiniRtos.TransitionSystem
