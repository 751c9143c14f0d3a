import Mathlib.Data.List.Forall2
import MemberHarvest.Journal

/-!
# Proofs/Outcome — what comes of steps that are taken one after another

Steps in turn succeed just where every one of them does (`mapM_eq_ok_iff`), and fail with the first
of them that fails (`mapM_eq_error_iff`). So what kinds of failures there are follows step by step
(`FailsAs`), and so does what comes of steps when they are taken again (`RepeatsUnless`). A
journaled run has the outcome that its steps have without their reports (`outcome_bind`,
`outcome_mapM`), so that outcomes are looked at apart from journals.
-/

namespace MemberHarvest.Outcome

variable {α β ε : Type}

theorem ok_bind (a : α) (f : α → Except ε β) : (.ok a : Except ε α) >>= f = f a := rfl

theorem exists_of_isOk {x : Except ε α} (h : x.isOk = true) : ∃ a, x = .ok a := by
  cases x with
  | ok a => exact ⟨a, rfl⟩
  | error e => cases h

/-- **Two steps succeed just where the first one does and the second one does on its result.** With
this lemma a computation is taken apart step by step, without unfolding the monad. -/
theorem bind_eq_ok_iff {x : Except ε α} {f : α → Except ε β} {b : β} :
    x >>= f = .ok b ↔ ∃ a, x = .ok a ∧ f a = .ok b := by
  cases x <;> simp [bind, Except.bind]

/-- Two steps fail as the first one does, or as the second one does on its result. -/
theorem bind_eq_error_iff {x : Except ε α} {f : α → Except ε β} {e : ε} :
    x >>= f = .error e ↔ x = .error e ∨ ∃ a, x = .ok a ∧ f a = .error e := by
  cases x <;> simp [bind, Except.bind]

/-- A result that is carried on comes from a result. -/
theorem map_eq_ok_iff {x : Except ε α} {f : α → β} {b : β} :
    f <$> x = .ok b ↔ ∃ a, x = .ok a ∧ f a = b := by
  cases x <;> simp [Functor.map, Except.map]

theorem map_eq_error_iff {x : Except ε α} {f : α → β} {e : ε} :
    f <$> x = .error e ↔ x = .error e := by
  cases x <;> simp [Functor.map, Except.map]

/-- Carrying a result on neither makes nor prevents a failure. -/
theorem exists_map_eq_ok_iff {x : Except ε α} {f : α → β} :
    (∃ b, f <$> x = .ok b) ↔ ∃ a, x = .ok a := by
  simp [map_eq_ok_iff]

/-- Putting a failure in other words does not touch results. -/
theorem mapError_eq_ok_iff {ε' : Type} {x : Except ε α} {f : ε → ε'} {a : α} :
    x.mapError f = .ok a ↔ x = .ok a := by
  cases x <;> simp [Except.mapError]

/-- A failure in other words comes from one in its own. -/
theorem mapError_eq_error_iff {ε' : Type} {x : Except ε α} {f : ε → ε'} {e : ε'} :
    x.mapError f = .error e ↔ ∃ e', x = .error e' ∧ f e' = e := by
  cases x <;> simp [Except.mapError]

/-- **Steps in turn succeed just where each of them does.** The results correspond to the elements
one by one. -/
theorem mapM_eq_ok_iff {f : α → Except ε β} {as : List α} {bs : List β} :
    as.mapM f = .ok bs ↔ List.Forall₂ (fun a b => f a = .ok b) as bs := by
  induction as generalizing bs with
  | nil => simp [pure, Except.pure, eq_comm]
  | cons a as ih =>
    rw [List.mapM_cons, bind_eq_ok_iff]
    constructor
    · rintro ⟨b, hb, h⟩
      obtain ⟨bs', hbs, h⟩ := bind_eq_ok_iff.1 h
      cases h
      exact .cons hb (ih.1 hbs)
    · rintro (_ | ⟨hb, hbs⟩)
      exact ⟨_, hb, bind_eq_ok_iff.2 ⟨_, ih.2 hbs, rfl⟩⟩

/-- **Steps in turn fail with the first of them that fails.** All elements in front of it have
results, and those behind it are not looked at. -/
theorem mapM_eq_error_iff {f : α → Except ε β} {as : List α} {e : ε} :
    as.mapM f = .error e ↔
      ∃ front a rest, as = front ++ a :: rest ∧ (∀ a' ∈ front, ∃ b, f a' = .ok b) ∧
        f a = .error e := by
  induction as with
  | nil => simp [pure, Except.pure]
  | cons a as ih =>
    rw [List.mapM_cons, bind_eq_error_iff]
    constructor
    · rintro (ha | ⟨b, hb, h⟩)
      · exact ⟨[], a, as, rfl, by simp, ha⟩
      · have has : as.mapM f = .error e :=
          (bind_eq_error_iff.1 h).resolve_right fun ⟨_, _, h⟩ => by cases h
        obtain ⟨front, c, rest, rfl, hfront, hc⟩ := ih.1 has
        exact ⟨a :: front, c, rest, rfl, List.forall_mem_cons.2 ⟨⟨b, hb⟩, hfront⟩, hc⟩
    · rintro ⟨front, c, rest, h, hfront, hc⟩
      cases front with
      | nil =>
        obtain ⟨rfl, -⟩ := List.cons.inj h
        exact .inl hc
      | cons a' front =>
        obtain ⟨rfl, rfl⟩ := List.cons.inj h
        obtain ⟨⟨b, hb⟩, hfront⟩ := List.forall_mem_cons.1 hfront
        have has := ih.2 ⟨front, c, rest, rfl, hfront, hc⟩
        exact .inr ⟨b, hb, bind_eq_error_iff.2 (.inl has)⟩

/-- Steps over a list succeed just where each of them does. -/
theorem exists_mapM_eq_ok_iff {f : α → Except ε β} {as : List α} :
    (∃ bs, as.mapM f = .ok bs) ↔ ∀ a ∈ as, ∃ b, f a = .ok b := by
  constructor
  · rintro ⟨bs, h⟩
    have hpair : List.Forall₂ (fun a b => (∃ b, f a = .ok b) ∧ f a = .ok b) as bs :=
      (mapM_eq_ok_iff.1 h).imp fun _ b hb => ⟨⟨b, hb⟩, hb⟩
    exact ((List.forall₂_and_left as bs).1 hpair).1
  · intro h
    cases hf : as.mapM f with
    | ok bs => exact ⟨bs, rfl⟩
    | error e =>
      obtain ⟨front, a, rest, rfl, -, ha⟩ := mapM_eq_error_iff.1 hf
      obtain ⟨b, hb⟩ := h a (by simp)
      exact nomatch ha.symm.trans hb

/-- Steps whose results are known come to the list of these results. -/
theorem mapM_eq_ok_map {f : α → Except ε β} {g : α → β} {as : List α}
    (h : ∀ a ∈ as, f a = .ok (g a)) :
    as.mapM f = .ok (as.map g) :=
  mapM_eq_ok_iff.2 (List.forall₂_map_right_iff.2 (List.forall₂_same.2 h))

/-- Each result of steps over a list comes from one of them. -/
theorem exists_of_mem_mapM {f : α → Except ε β} {as : List α} {bs : List β}
    (h : as.mapM f = .ok bs) {b : β} (hb : b ∈ bs) : ∃ a ∈ as, f a = .ok b := by
  rw [mapM_eq_ok_iff] at h
  induction h with
  | nil => simp at hb
  | cons ha _ ih =>
    rcases List.mem_cons.1 hb with rfl | hb
    · exact ⟨_, List.mem_cons_self, ha⟩
    · exact (ih hb).imp fun _ => And.imp_left (List.mem_cons_of_mem _)

/-- The results of steps, as a function. -/
theorem exists_forall_eq_ok [Inhabited β] {f : α → Except ε β} {as : List α}
    (h : ∀ a ∈ as, ∃ b, f a = .ok b) :
    ∃ g : α → β, ∀ a ∈ as, f a = .ok (g a) := by
  have hok : ∀ a, ∃ b, a ∈ as → f a = .ok b := by
    intro a
    by_cases ha : a ∈ as
    · exact (h a ha).imp fun _ hb _ => hb
    · exact ⟨default, fun ha' => absurd ha' ha⟩
  choose g hg using hok
  exact ⟨g, hg⟩

/-! ## Kinds of failures -/

/-- Whether an outcome, if it is a failure, is one of a kind. -/
def FailsAs (P : ε → Prop) (x : Except ε α) : Prop := ∀ e, x = .error e → P e

namespace FailsAs

variable {P Q : ε → Prop} {x : Except ε α}

theorem ok (a : α) : FailsAs P (.ok a) := nofun

theorem error {e : ε} (h : P e) : FailsAs P (.error e : Except ε α) := by
  rintro _ ⟨⟩
  exact h

/-- A failure that has one property has every wider one. -/
theorem mono (h : FailsAs P x) (hPQ : ∀ e, P e → Q e) : FailsAs Q x := fun e he => hPQ e (h e he)

/-- **A failure of two steps is one of the first, or of the second after the first.** The second
step may use what the first one came to. -/
theorem bind {f : α → Except ε β} (hx : FailsAs P x) (hf : ∀ a, x = .ok a → FailsAs P (f a)) :
    FailsAs P (x >>= f) := by
  intro e he
  rcases bind_eq_error_iff.1 he with he | ⟨a, ha, he⟩
  · exact hx e he
  · exact hf a ha e he

/-- Carrying a result on fails as the computation itself does. -/
theorem map {f : α → β} (hx : FailsAs P x) :
    FailsAs P (f <$> x) := fun e he => hx e (map_eq_error_iff.1 he)

/-- What holds of failures in other words is asked of them before they are put so. -/
theorem mapError {ε' : Type} {f : ε' → ε} {y : Except ε' α} (hy : FailsAs (fun e => P (f e)) y) :
    FailsAs P (y.mapError f) := by
  intro e he
  obtain ⟨e', he', rfl⟩ := mapError_eq_error_iff.1 he
  exact hy e' he'

/-- Steps over a list fail as one of them does. -/
theorem mapM {f : α → Except ε β} {as : List α} (hf : ∀ a ∈ as, FailsAs P (f a)) :
    FailsAs P (as.mapM f) := by
  intro e he
  obtain ⟨front, a, rest, rfl, -, ha⟩ := mapM_eq_error_iff.1 he
  exact hf a (by simp) e ha

/-- What does not succeed is a failure of the kind. -/
theorem exists_eq_error (hx : FailsAs P x) (h : ¬ ∃ a, x = .ok a) : ∃ e, P e ∧ x = .error e := by
  cases x with
  | ok a => exact absurd ⟨a, rfl⟩ h
  | error e => exact ⟨e, hx e rfl, rfl⟩

end FailsAs

/-! ## Steps that are taken again -/

/-- Whether a second outcome repeats the first one, if that is a success, unless it is a failure of
a kind. -/
def RepeatsUnless (P : ε → Prop) (x y : Except ε α) : Prop :=
  ∀ a, x = .ok a → y = .ok a ∨ ∃ e, P e ∧ y = .error e

namespace RepeatsUnless

variable {P : ε → Prop} {x y : Except ε α}

theorem refl (x : Except ε α) : RepeatsUnless P x x := fun _ => .inl

theorem of_error (e : ε) (y : Except ε α) : RepeatsUnless P (.error e) y := nofun

theorem mono {Q : ε → Prop} (h : RepeatsUnless P x y) (hPQ : ∀ e, P e → Q e) :
    RepeatsUnless Q x y :=
  fun a ha => (h a ha).imp_right fun ⟨e, he, hy⟩ => ⟨e, hPQ e he, hy⟩

/-- What is repeated unconditionally comes to the same again. -/
theorem eq_ok {a : α} (h : RepeatsUnless (fun _ => False) x y) (ha : x = .ok a) : y = .ok a := by
  rcases h a ha with hy | ⟨_, hfalse, -⟩
  · exact hy
  · exact hfalse.elim

/-- **Two steps are repeated if the first is, and the second after what the first came to.** -/
theorem bind {f g : α → Except ε β} (h : RepeatsUnless P x y)
    (hf : ∀ a, x = .ok a → RepeatsUnless P (f a) (g a)) :
    RepeatsUnless P (x >>= f) (y >>= g) := by
  intro b hb
  obtain ⟨a, ha, hb⟩ := bind_eq_ok_iff.1 hb
  rcases h a ha with hy | ⟨e, he, hy⟩
  · rw [hy]
    exact hf a ha b hb
  · exact .inr ⟨e, he, by rw [hy]; rfl⟩

theorem map {f : α → β} (h : RepeatsUnless P x y) : RepeatsUnless P (f <$> x) (f <$> y) := by
  rw [map_eq_pure_bind, map_eq_pure_bind]
  exact h.bind fun a _ => .refl _

theorem mapError {ε' : Type} {f : ε' → ε} {x y : Except ε' α}
    (h : RepeatsUnless (fun e => P (f e)) x y) :
    RepeatsUnless P (x.mapError f) (y.mapError f) := by
  intro a ha
  rcases h a (mapError_eq_ok_iff.1 ha) with hy | ⟨e, he, hy⟩
  · exact .inl (mapError_eq_ok_iff.2 hy)
  · exact .inr ⟨f e, he, mapError_eq_error_iff.2 ⟨e, hy, rfl⟩⟩

/-- **Steps in turn are repeated if each of them is.** -/
theorem mapM {f g : α → Except ε β} {as : List α} (h : ∀ a ∈ as, RepeatsUnless P (f a) (g a)) :
    RepeatsUnless P (as.mapM f) (as.mapM g) := by
  induction as with
  | nil => exact .refl _
  | cons a as ih =>
    obtain ⟨ha, has⟩ := List.forall_mem_cons.1 h
    rw [List.mapM_cons, List.mapM_cons]
    exact ha.bind fun b _ => (ih has).bind fun bs _ => .refl _

end RepeatsUnless

/-! ## Steps in any monad -/

section LawfulMonad

variable {γ : Type} {m : Type → Type} [Monad m] [LawfulMonad m]

/-- Steps for the members of several lists are steps for the members of one. -/
theorem mapM_flatMap (f : α → m β) (g : γ → List α) (cs : List γ) :
    (cs.flatMap g).mapM f = List.flatten <$> cs.mapM fun c => (g c).mapM f := by
  induction cs with
  | nil => simp
  | cons c cs ih => simp [ih]

/-- Steps over a list depend only on what they do on its elements. -/
theorem mapM_congr {f g : α → m β} {as : List α} (h : ∀ a ∈ as, f a = g a) :
    as.mapM f = as.mapM g := by
  induction as with
  | nil => simp
  | cons a as ih =>
    obtain ⟨ha, has⟩ := List.forall_mem_cons.1 h
    rw [List.mapM_cons, List.mapM_cons, ha, ih has]

/-- Results may be carried on at every step, or all at the end. -/
theorem mapM_map_comp (f : α → m β) (g : β → γ) (as : List α) :
    (as.mapM fun a => g <$> f a) = List.map g <$> as.mapM f := by
  induction as with
  | nil => simp
  | cons a as ih => simp [ih]

end LawfulMonad

end MemberHarvest.Outcome

namespace MemberHarvest.Journaled

variable {α β : Type}

@[simp] theorem outcome_liftM (x : Except Failure α) : (liftM x : Journaled α).outcome = x := rfl
@[simp] theorem outcome_report (e : Entry) : (report e).outcome = .ok () := rfl
@[simp] theorem outcome_reports (es : List Entry) : (reports es).outcome = .ok () := rfl
@[simp] theorem outcome_fail (e : Failure) : (fail e : Journaled α).outcome = .error e := rfl

/-- A choice between two reported computations is a choice between their outcomes. -/
@[simp] theorem outcome_ite {c : Prop} [Decidable c] (x y : Journaled α) :
    (if c then x else y).outcome = if c then x.outcome else y.outcome := apply_ite _ c x y

/-- **The outcome of a run is the outcome of its steps.** So a proof about outcomes alone never
meets a journal. -/
@[simp] theorem outcome_bind (x : Journaled α) (f : α → Journaled β) :
    (x >>= f).outcome = x.outcome >>= fun a => (f a).outcome := by
  cases h : x.outcome with
  | error e => rw [bind_of_error f h]; rfl
  | ok a => rw [bind_of_ok f h]; rfl

theorem id_map (x : Journaled α) : id <$> x = x := by
  obtain ⟨es, _ | a⟩ := x
  · rfl
  · simp [Functor.map, Journaled.bind, Journaled.pure]

theorem bind_assoc {γ : Type} (x : Journaled α) (f : α → Journaled β) (g : β → Journaled γ) :
    x >>= f >>= g = x >>= fun a => f a >>= g := by
  cases hx : x.outcome with
  | error e => rw [bind_of_error f hx, bind_of_error _ hx, bind_of_error g rfl]
  | ok a =>
    rw [bind_of_ok f hx, bind_of_ok _ hx]
    cases hf : (f a).outcome with
    | error e => rw [bind_of_error g rfl, bind_of_error g hf]
    | ok b => rw [bind_of_ok g rfl, bind_of_ok g hf, List.append_assoc]

instance : LawfulMonad Journaled := LawfulMonad.mk' Journaled id_map (fun _ _ => rfl) bind_assoc

@[simp] theorem outcome_map (f : α → β) (x : Journaled α) :
    (f <$> x).outcome = f <$> x.outcome := by
  rw [map_eq_pure_bind, outcome_bind, map_eq_pure_bind]
  rfl

/-- **The outcome of reported steps over a list is that of the steps without reports.** Together
with `outcome_bind` it turns loading into a computation without reports. -/
@[simp] theorem outcome_mapM (f : α → Journaled β) (as : List α) :
    (as.mapM f).outcome = as.mapM fun a => (f a).outcome := by
  induction as with
  | nil => rfl
  | cons a as ih => simp [List.mapM_cons, ih]

end MemberHarvest.Journaled
