import Mathlib

namespace RTBuild.Library.Task

section interleaving

variable {α β : Type} {n : Nat}

def Interleaves (ts : Fin n → List α) (t : List α) : Prop :=
  ∃ w : List (Fin n × α), t = w.map Prod.snd ∧ ∀ i, ts i = (w.filter (fun p => p.1 = i)).map Prod.snd

namespace Interleaves

variable {ts : Fin n → List α} {t : List α}

theorem mem_iff (h : Interleaves ts t) {x : α} : x ∈ t ↔ ∃ i, x ∈ ts i := by
  obtain ⟨w, rfl, hts⟩ := h
  constructor
  · intro hx
    obtain ⟨p, hp, rfl⟩ := List.mem_map.1 hx
    refine ⟨p.1, ?_⟩
    rw [hts]
    exact List.mem_map_of_mem (List.mem_filter.2 ⟨hp, by simp⟩)
  · rintro ⟨i, hx⟩
    rw [hts] at hx
    obtain ⟨p, hp, rfl⟩ := List.mem_map.1 hx
    exact List.mem_map_of_mem (List.mem_filter.1 hp).1

theorem sublist (h : Interleaves ts t) (i : Fin n) : (ts i).Sublist t := by
  obtain ⟨w, rfl, hts⟩ := h
  rw [hts]
  exact List.filter_sublist.map Prod.snd

theorem filterMap (h : Interleaves ts t) (f : α → Option β) :
    Interleaves (fun i => (ts i).filterMap f) (t.filterMap f) := by
  obtain ⟨w, rfl, hts⟩ := h
  refine ⟨w.filterMap (fun p => (f p.2).map (fun y => (p.1, y))), ?_, fun i => ?_⟩
  · rw [List.filterMap_map, List.map_filterMap]
    refine List.filterMap_congr (fun p _ => ?_)
    cases hp : f p.2 <;> simp [hp]
  · simp only [hts]
    clear hts
    induction w with
    | nil => rfl
    | cons p w ih =>
        simp only [List.filterMap_map, Function.comp_def] at ih ⊢
        by_cases hi : p.1 = i
        · cases hp : f p.2 <;> simp [hi, hp, ih]
        · cases hp : f p.2 <;> simp [hi, hp, ih]

theorem eq_of_others_nil (h : Interleaves ts t) {i : Fin n} (hi : ∀ j, j ≠ i → ts j = []) :
    t = ts i := by
  obtain ⟨w, rfl, hts⟩ := h
  have hall : ∀ p ∈ w, p.1 = i := by
    intro p hp
    by_contra hne
    have hnil := hi p.1 hne
    rw [hts] at hnil
    have hmem : p ∈ w.filter (fun q => q.1 = p.1) := List.mem_filter.2 ⟨hp, by simp⟩
    rw [List.map_eq_nil_iff.1 hnil.symm.symm] at hmem
    exact List.not_mem_nil hmem
  rw [hts, List.filter_eq_self.2 (fun p hp => by simpa using hall p hp)]

theorem sum_map (h : Interleaves ts t) (f : α → Nat) : (t.map f).sum = ∑ i, ((ts i).map f).sum := by
  obtain ⟨w, rfl, hts⟩ := h
  simp only [hts]
  clear hts
  induction w with
  | nil => simp
  | cons p w ih =>
      have hsplit : ∀ i, ((((p :: w).filter (fun q => q.1 = i)).map Prod.snd).map f).sum =
          (if i = p.1 then f p.2 else 0) + (((w.filter (fun q => q.1 = i)).map Prod.snd).map f).sum := by
        intro i
        by_cases hi : p.1 = i
        · simp [hi]
        · simp [hi, Ne.symm hi]
      rw [List.map_cons, List.map_cons, List.sum_cons, ih, Finset.sum_congr rfl (fun i _ => hsplit i),
        Finset.sum_add_distrib, Finset.sum_ite_eq' Finset.univ p.1]
      simp

theorem pairwise (h : Interleaves ts t) {R : α → α → Prop} (hsymm : ∀ x y, R x y → R y x)
    (hR : t.Pairwise R) :
    (∀ i, (ts i).Pairwise R) ∧ ∀ i j, i ≠ j → ∀ x ∈ ts i, ∀ y ∈ ts j, R x y := by
  refine ⟨fun i => hR.sublist (h.sublist i), fun i j hij x hx y hy => ?_⟩
  obtain ⟨w, rfl, hts⟩ := h
  rw [hts] at hx hy
  obtain ⟨p, hp, rfl⟩ := List.mem_map.1 hx
  obtain ⟨q, hq, rfl⟩ := List.mem_map.1 hy
  rw [List.mem_filter, decide_eq_true_iff] at hp hq
  have hne : p ≠ q := by
    rintro rfl
    exact hij (hp.2.symm.trans hq.2)
  have hw : w.Pairwise (fun p q => R p.2 q.2) := List.pairwise_map.1 hR
  have : Std.Symm (fun p q : Fin n × α => R p.2 q.2) := ⟨fun p q => hsymm p.2 q.2⟩
  exact hw.forall hp.1 hq.1 hne

theorem nil : Interleaves (fun _ : Fin n => ([] : List α)) [] := ⟨[], rfl, fun _ => rfl⟩

theorem cons (h : Interleaves ts t) (l : List α) :
    Interleaves (Fin.cons l ts : Fin (n + 1) → List α) (l ++ t) := by
  obtain ⟨w, rfl, hts⟩ := h
  refine ⟨l.map (fun x => (0, x)) ++ w.map (fun p => (p.1.succ, p.2)), ?_, fun i => ?_⟩
  · simp [Function.comp_def]
  · rw [List.filter_append, List.map_append, List.filter_map, List.filter_map]
    refine Fin.cases ?_ (fun i => ?_) i
    · simp [Function.comp_def]
    · simp [Function.comp_def, hts, (Fin.succ_ne_zero i).symm]

end Interleaves

end interleaving

inductive Event (Q A E : Type)
  | ask (q : Q) (a : A)
  | emit (e : E)

inductive Outcome (X V : Type)
  | ret (v : V)
  | throw (x : X)

/-- A program that asks its environment, emits events and starts tasks. After a
parallel section it goes on with the values of all tasks, or with none when a
task failed. -/
inductive Prog (Q A E X V : Type)
  | ret (v : V)
  | throw (x : X)
  | ask (q : Q) (k : A → Prog Q A E X V)
  | emit (e : E) (k : Prog Q A E X V)
  | par (n : Nat) (task : Fin n → Prog Q A E X V) (k : Option (Fin n → V) → Prog Q A E X V)

variable {Q A E X V : Type}

/-- How the tasks of a parallel section end, given which of them were started:
a task is left out only when another one failed or threw. -/
inductive Join (ok : V → Bool) {n : Nat} (started : Fin n → Bool) (os : Fin n → Outcome X V) :
    Outcome X (Option (Fin n → V)) → Prop
  | done (vs : Fin n → V) (hall : ∀ i, started i = true ∧ os i = .ret (vs i) ∧ ok (vs i) = true) :
      Join ok started os (.ret (some vs))
  | fail (i : Fin n) (v : V) (hi : started i = true) (hret : os i = .ret v) (hok : ok v = false)
      (hothers : ∀ j, started j = true → ∃ w, os j = .ret w) : Join ok started os (.ret none)
  | throw (i : Fin n) (x : X) (hi : started i = true)
      (hthrow : os i = .throw x) : Join ok started os (.throw x)

/-- The runs of a program, with any answers to what it asks and any
interleaving of its tasks. -/
inductive Run (ok : V → Bool) : Prog Q A E X V → List (Event Q A E) → Outcome X V → Prop
  | ret (v : V) : Run ok (.ret v) [] (.ret v)
  | throw (x : X) : Run ok (.throw x) [] (.throw x)
  | ask {q : Q} {k : A → Prog Q A E X V} (a : A) {t : List (Event Q A E)} {o : Outcome X V}
      (hk : Run ok (k a) t o) : Run ok (.ask q k) (.ask q a :: t) o
  | emit {e : E} {k : Prog Q A E X V} {t : List (Event Q A E)} {o : Outcome X V} (hk : Run ok k t o) :
      Run ok (.emit e k) (.emit e :: t) o
  | par {n : Nat} {task : Fin n → Prog Q A E X V} {k : Option (Fin n → V) → Prog Q A E X V}
      (started : Fin n → Bool) (ts : Fin n → List (Event Q A E)) (os : Fin n → Outcome X V)
      {t t' : List (Event Q A E)} (r : Option (Fin n → V)) {o : Outcome X V}
      (htasks : ∀ i, started i = true → Run ok (task i) (ts i) (os i))
      (hidle : ∀ i, started i = false → ts i = []) (hweave : Interleaves ts t)
      (hjoin : Join ok started os (.ret r)) (hk : Run ok (k r) t' o) : Run ok (.par n task k) (t ++ t') o
  | parThrow {n : Nat} {task : Fin n → Prog Q A E X V} {k : Option (Fin n → V) → Prog Q A E X V}
      (started : Fin n → Bool) (ts : Fin n → List (Event Q A E)) (os : Fin n → Outcome X V)
      {t : List (Event Q A E)} (x : X) (htasks : ∀ i, started i = true → Run ok (task i) (ts i) (os i))
      (hidle : ∀ i, started i = false → ts i = []) (hweave : Interleaves ts t)
      (hjoin : Join ok started os (.throw x)) : Run ok (.par n task k) t (.throw x)

def Prog.bind : Prog Q A E X V → (V → Prog Q A E X V) → Prog Q A E X V
  | .ret v, f => f v
  | .throw x, _ => .throw x
  | .ask q k, f => .ask q (fun a => (k a).bind f)
  | .emit e k, f => .emit e (k.bind f)
  | .par n task k, f => .par n task (fun r => (k r).bind f)

def serial (ok : V → Bool) :
    (n : Nat) → (Fin n → Prog Q A E X V) → (Option (Fin n → V) → Prog Q A E X V) → Prog Q A E X V
  | 0, _, k => k (some Fin.elim0)
  | n + 1, task, k =>
      (task 0).bind (fun v =>
        if ok v then serial ok n (fun i => task i.succ) (fun r => k (r.map (fun vs => Fin.cons v vs)))
        else k none)

def emits : List E → Prog Q A E X V → Prog Q A E X V
  | [], k => k
  | e :: es, k => .emit e (emits es k)

variable {ok : V → Bool} {t : List (Event Q A E)} {o : Outcome X V}

theorem Run.of_emits {es : List E} {k : Prog Q A E X V} (h : Run ok (emits es k) t o) :
    ∃ t', t = es.map .emit ++ t' ∧ Run ok k t' o := by
  induction es generalizing t with
  | nil => exact ⟨t, rfl, h⟩
  | cons e es ih =>
      cases h with
      | emit hk =>
          obtain ⟨t', rfl, hrun⟩ := ih hk
          exact ⟨t', rfl, hrun⟩

theorem Run.of_bind {p : Prog Q A E X V} {f : V → Prog Q A E X V} (h : Run ok (p.bind f) t o) :
    (∃ x, Run ok p t (.throw x) ∧ o = .throw x) ∨
      ∃ v t₁ t₂, Run ok p t₁ (.ret v) ∧ Run ok (f v) t₂ o ∧ t = t₁ ++ t₂ := by
  induction p generalizing t with
  | ret v => exact Or.inr ⟨v, [], t, .ret v, h, rfl⟩
  | throw x =>
      cases h
      exact Or.inl ⟨x, .throw x, rfl⟩
  | ask q k ih =>
      cases h with
      | ask a hk =>
          rcases ih a hk with ⟨x, hrun, rfl⟩ | ⟨v, t₁, t₂, hrun, hf, rfl⟩
          · exact Or.inl ⟨x, .ask a hrun, rfl⟩
          · exact Or.inr ⟨v, _, t₂, .ask a hrun, hf, rfl⟩
  | emit e k ih =>
      cases h with
      | emit hk =>
          rcases ih hk with ⟨x, hrun, rfl⟩ | ⟨v, t₁, t₂, hrun, hf, rfl⟩
          · exact Or.inl ⟨x, .emit hrun, rfl⟩
          · exact Or.inr ⟨v, _, t₂, .emit hrun, hf, rfl⟩
  | par n task k _ ih =>
      cases h with
      | par started ts os r htasks hidle hweave hjoin hk =>
          rcases ih r hk with ⟨x, hrun, rfl⟩ | ⟨v, t₁, t₂, hrun, hf, rfl⟩
          · exact Or.inl ⟨x, .par started ts os r htasks hidle hweave hjoin hrun, rfl⟩
          · refine Or.inr ⟨v, _, t₂, .par started ts os r htasks hidle hweave hjoin hrun, hf, ?_⟩
            rw [List.append_assoc]
      | parThrow started ts os x htasks hidle hweave hjoin =>
          exact Or.inl ⟨x, .parThrow started ts os x htasks hidle hweave hjoin, rfl⟩

/-- A parallel section may start its first task alone and leave out the others. -/
theorem Interleaves.single {α : Type} {n : Nat} (l : List α) :
    Interleaves (Fin.cons l (fun _ => []) : Fin (n + 1) → List α) l := by
  simpa using Interleaves.nil.cons l

theorem Run.par_cons {n : Nat} {task : Fin (n + 1) → Prog Q A E X V}
    {k : Option (Fin (n + 1) → V) → Prog Q A E X V} {t₁ t₂ : List (Event Q A E)} {v : V}
    (hfirst : Run ok (task 0) t₁ (.ret v)) (hok : ok v = true)
    (hrest : Run ok
      (.par n (fun i => task i.succ) (fun r => k (r.map (fun vs => Fin.cons v vs)))) t₂ o) :
    Run ok (.par (n + 1) task k) (t₁ ++ t₂) o := by
  have htasks : ∀ (started : Fin n → Bool) (ts : Fin n → List (Event Q A E)) (os : Fin n → Outcome X V),
      (∀ i, started i = true → Run ok (task i.succ) (ts i) (os i)) →
      ∀ i, (Fin.cons true started : Fin (n + 1) → Bool) i = true →
        Run ok (task i) ((Fin.cons t₁ ts : Fin (n + 1) → _) i)
          ((Fin.cons (.ret v) os : Fin (n + 1) → _) i) := by
    intro started ts os h i
    refine Fin.cases (fun _ => hfirst) (fun i hi => ?_) i
    exact h i hi
  have hidle' : ∀ (started : Fin n → Bool) (ts : Fin n → List (Event Q A E)),
      (∀ i, started i = false → ts i = []) →
      ∀ i, (Fin.cons true started : Fin (n + 1) → Bool) i = false → (Fin.cons t₁ ts : Fin (n + 1) →
        _) i = [] := by
    intro started ts h i
    refine Fin.cases (fun hi => Bool.noConfusion hi) (fun i hi => h i hi) i
  cases hrest with
  | par started ts os r hrun hidle hweave hjoin hk =>
      have hall := htasks started ts os hrun
      have hnone := hidle' started ts hidle
      rw [← List.append_assoc]
      cases hjoin with
      | done vs hvs =>
          refine .par _ _ _ (some (Fin.cons v vs)) hall hnone (hweave.cons t₁) (.done _ (fun i => ?_)) hk
          exact Fin.cases ⟨rfl, rfl, hok⟩ (fun i => hvs i) i
      | fail i w hi hret hokw hothers =>
          refine .par _ _ _ none hall hnone (hweave.cons t₁)
            (.fail i.succ w hi hret hokw (fun j => ?_)) hk
          exact Fin.cases (fun _ => ⟨v, rfl⟩) (fun j hj => hothers j hj) j
  | parThrow started ts os x hrun hidle hweave hjoin =>
      cases hjoin with
      | throw i _ hi hthrow =>
          exact .parThrow _ _ _ x (htasks started ts os hrun) (hidle' started ts hidle) (hweave.cons t₁)
            (.throw i.succ x hi hthrow)

/-- Every run of the serial loop is a run of the parallel section over the same tasks. -/
theorem Run.of_serial {n : Nat} {task : Fin n → Prog Q A E X V} {k : Option (Fin n → V) → Prog Q A E X V}
    (h : Run ok (serial ok n task k) t o) : Run ok (.par n task k) t o := by
  induction n generalizing t with
  | zero =>
      have hnil : Interleaves (fun _ : Fin 0 => ([] : List (Event Q A E))) [] := .nil
      exact .par (fun _ => true) (fun _ => []) (fun i => i.elim0) (some Fin.elim0) (fun i => i.elim0)
        (fun i => i.elim0) hnil (.done _ (fun i => i.elim0)) h
  | succ n ih =>
      rw [serial] at h
      -- the first task throws, fails, or lets the loop go on
      rcases h.of_bind with ⟨x, hrun, rfl⟩ | ⟨v, t₁, t₂, hrun, hcont, rfl⟩
      · refine .parThrow (Fin.cons true (fun _ => false)) (Fin.cons t (fun _ => []))
          (Fin.cons (.throw x) (fun _ => .throw x)) x (fun i => ?_) (fun i => ?_) (.single t)
            (.throw 0 x rfl rfl)
        · exact Fin.cases (fun _ => hrun) (fun i hi => Bool.noConfusion hi) i
        · exact Fin.cases (fun hi => Bool.noConfusion hi) (fun i _ => rfl) i
      · by_cases hok : ok v = true
        · rw [if_pos hok] at hcont
          exact hrun.par_cons hok (ih hcont)
        · rw [if_neg hok] at hcont
          refine .par (Fin.cons true (fun _ => false)) (Fin.cons t₁ (fun _ => []))
            (Fin.cons (.ret v) (fun _ => .ret v)) none (fun i => ?_) (fun i => ?_) (.single t₁)
            (.fail 0 v rfl rfl (by simpa using hok) (fun j => ?_)) hcont
          · exact Fin.cases (fun _ => hrun) (fun i hi => Bool.noConfusion hi) i
          · exact Fin.cases (fun hi => Bool.noConfusion hi) (fun i _ => rfl) i
          · exact Fin.cases (fun _ => ⟨v, rfl⟩) (fun j hj => Bool.noConfusion hj) j

/-- The answers in a trace are those of an environment with a state. -/
inductive Answered {S : Type} (serve : S → Q → A → S → Prop) : S → List (Event Q A E) → S → Prop
  | nil (s : S) : Answered serve s [] s
  | ask {s s' s'' : S} {q : Q} {a : A} {t : List (Event Q A E)} (h : serve s q a s')
      (ht : Answered serve s' t s'') :
      Answered serve s (.ask q a :: t) s''
  | emit {s s' : S} {e : E} {t : List (Event Q A E)} (ht : Answered serve s t s') :
      Answered serve s (.emit e :: t) s'

section environment

variable {S : Type} {serve : S → Q → A → S → Prop}

theorem Answered.append {s s' s'' : S} {t t' : List (Event Q A E)} (h : Answered serve s t s')
    (h' : Answered serve s' t' s'') : Answered serve s (t ++ t') s'' := by
  induction h with
  | nil s => exact h'
  | ask hserve _ ih => exact .ask hserve (ih h')
  | emit _ ih => exact .emit (ih h')

theorem Answered.of_append {s s'' : S} {t t' : List (Event Q A E)} (h : Answered serve s (t ++ t') s'') :
    ∃ s', Answered serve s t s' ∧ Answered serve s' t' s'' := by
  induction t generalizing s with
  | nil => exact ⟨s, .nil s, h⟩
  | cons e t ih =>
      cases h with
      | ask hserve ht =>
          obtain ⟨s', hfirst, hrest⟩ := ih ht
          exact ⟨s', .ask hserve hfirst, hrest⟩
      | emit ht =>
          obtain ⟨s', hfirst, hrest⟩ := ih ht
          exact ⟨s', .emit hfirst, hrest⟩

theorem exists_tasks {n : Nat} {task : Fin n → Prog Q A E X V}
    (h : ∀ i s, ∃ t o s', Run ok (task i) t o ∧ Answered serve s t s') (s : S) :
    ∃ (ts : Fin n → List (Event Q A E)) (os : Fin n → Outcome X V) (t : List (Event Q A E)) (s' : S),
      (∀ i, Run ok (task i) (ts i) (os i)) ∧ Interleaves ts t ∧ Answered serve s t s' := by
  induction n generalizing s with
  | zero =>
      have hnil : Interleaves (fun _ : Fin 0 => ([] : List (Event Q A E))) [] := .nil
      exact ⟨_, fun i => i.elim0, [], s, fun i => i.elim0, hnil, .nil s⟩
  | succ n ih =>
      obtain ⟨t, o, s', hrun, hanswered⟩ := h 0 s
      obtain ⟨ts, os, t', s'', hruns, hweave, hanswered'⟩ := ih (fun i => h i.succ) s'
      exact ⟨Fin.cons t ts, Fin.cons o os, t ++ t', s'', fun i => Fin.cases hrun hruns i, hweave.cons t,
        hanswered.append hanswered'⟩

/-- Every program comes to an end in an environment that always answers. -/
theorem exists_run (hserve : ∀ s q, ∃ a s', serve s q a s') (p : Prog Q A E X V) (s : S) :
    ∃ t o s', Run ok p t o ∧ Answered serve s t s' := by
  induction p generalizing s with
  | ret v => exact ⟨[], .ret v, s, .ret v, .nil s⟩
  | throw x => exact ⟨[], .throw x, s, .throw x, .nil s⟩
  | ask q k ih =>
      obtain ⟨a, s', ha⟩ := hserve s q
      obtain ⟨t, o, s'', hrun, hanswered⟩ := ih a s'
      exact ⟨_, o, s'', .ask a hrun, .ask ha hanswered⟩
  | emit e k ih =>
      obtain ⟨t, o, s', hrun, hanswered⟩ := ih s
      exact ⟨_, o, s', .emit hrun, .emit hanswered⟩
  | par n task k ihtask ih =>
      obtain ⟨ts, os, t, s', hruns, hweave, hanswered⟩ := exists_tasks ihtask s
      have hidle : ∀ i : Fin n, (fun _ => true) i = false → ts i = [] := fun i hi => Bool.noConfusion hi
      by_cases hthrow : ∃ i x, os i = .throw x
      · obtain ⟨i, x, hx⟩ := hthrow
        exact ⟨t, .throw x, s',
          .parThrow _ ts os x (fun i _ => hruns i) hidle hweave (.throw i x rfl hx), hanswered⟩
      · have hret : ∀ i, ∃ v, os i = .ret v := by
          intro i
          cases ho : os i with
          | ret v => exact ⟨v, rfl⟩
          | throw x => exact absurd ⟨i, x, ho⟩ hthrow
        choose vs hvs using hret
        have hjoin : ∃ r, Join ok (fun _ => true) os (.ret r) := by
          by_cases hall : ∀ i, ok (vs i) = true
          · exact ⟨some vs, .done vs (fun i => ⟨rfl, hvs i, hall i⟩)⟩
          · obtain ⟨i, hi⟩ := not_forall.1 hall
            exact ⟨none, .fail i (vs i) rfl (hvs i) (by simpa using hi) (fun j _ => ⟨vs j, hvs j⟩)⟩
        obtain ⟨r, hr⟩ := hjoin
        obtain ⟨t', o, s'', hrun, hanswered'⟩ := ih r s'
        exact ⟨t ++ t', o, s'', .par _ ts os r (fun i _ => hruns i) hidle hweave hr hrun,
          hanswered.append hanswered'⟩

end environment

section implementation

variable {Q' A' : Type}

/-- What may come after what in a trace: every event is allowed by those before it. -/
def Ordered {α : Type} (R : List α → α → Prop) (t : List α) : Prop :=
  ∀ t₁ x t₂, t = t₁ ++ x :: t₂ → R t₁ x

namespace Ordered

variable {α : Type} {R : List α → α → Prop} {t t' : List α}

theorem nil : Ordered R [] := fun t₁ x t₂ heq => by simp at heq

theorem cons {x : α} (hmono : ∀ l l' y, l ⊆ l' → R l y → R l' y) (hx : R [] x) (h : Ordered R t) :
    Ordered R (x :: t) := by
  intro t₁ y t₂ heq
  cases t₁ with
  | nil =>
      obtain ⟨rfl, -⟩ := List.cons.inj heq
      exact hx
  | cons z t₁ =>
      obtain ⟨rfl, ht⟩ := List.cons.inj heq
      exact hmono t₁ _ y (List.subset_cons_self _ _) (h t₁ y t₂ ht)

theorem append (hmono : ∀ l l' y, l ⊆ l' → R l y → R l' y) (h : Ordered R t) (h' : Ordered R t') :
    Ordered R (t ++ t') := by
  intro t₁ x t₂ heq
  rcases List.append_eq_append_iff.1 heq with ⟨l, rfl, ht'⟩ | ⟨l, rfl, hx⟩
  · exact hmono l _ x (List.subset_append_right _ _) (h' l x t₂ ht')
  · cases l with
    | nil => exact hmono [] _ x (List.nil_subset _) (h' [] x t₂ hx.symm)
    | cons y l =>
        obtain ⟨rfl, -⟩ := List.cons.inj hx
        exact h t₁ x l rfl

theorem interleaves {n : Nat} {ts : Fin n → List α} (hmono : ∀ l l' y, l ⊆ l' → R l y → R l' y)
    (hweave : Interleaves ts t) (h : ∀ i, Ordered R (ts i)) : Ordered R t := by
  obtain ⟨w, rfl, hts⟩ := hweave
  intro t₁ x t₂ heq
  obtain ⟨w₁, w', rfl, rfl, hw'⟩ := List.map_eq_append_iff.1 heq
  obtain ⟨p, w₂, rfl, rfl, rfl⟩ := List.map_eq_cons_iff.1 hw'
  have hi := h p.1 ((w₁.filter (fun q => q.1 = p.1)).map Prod.snd) p.2
    ((w₂.filter (fun q => q.1 = p.1)).map Prod.snd) (by rw [hts]; simp)
  refine hmono _ _ p.2 ?_ hi
  exact List.map_subset _ (List.filter_sublist).subset

end Ordered

/-- A program whose questions are answered by programs. -/
def Prog.implement (impl : Q → (A → Prog Q' A' E X V) → Prog Q' A' E X V) :
    Prog Q A E X V → Prog Q' A' E X V
  | .ret v => .ret v
  | .throw x => .throw x
  | .ask q k => impl q (fun a => (k a).implement impl)
  | .emit e k => .emit e (k.implement impl)
  | .par n task k => .par n (fun i => (task i).implement impl) (fun r => (k r).implement impl)

/-- In every run the answer to a question is seen at one event of its program. -/
structure Implements (ok : V → Bool) (impl : Q → (A → Prog Q' A' E X V) → Prog Q' A' E X V)
    (seen : Event Q' A' E → Option (Event Q A E))
    (R : List (Event Q' A' E) → Event Q' A' E → Prop) : Prop where
  emit : ∀ e, seen (.emit e) = some (.emit e)
  allowed : ∀ l e, R l (.emit e)
  mono : ∀ l l' y, l ⊆ l' → R l y → R l' y
  run : ∀ q k t o, Run ok (impl q k) t o → ∃ a t₁ t₂, t = t₁ ++ t₂ ∧
    t₁.filterMap seen = [.ask q a] ∧ Ordered R t₁ ∧ Run ok (k a) t₂ o

/-- The runs of the programs that answer the questions are runs with these answers. -/
theorem Implements.of_run {impl : Q → (A → Prog Q' A' E X V) → Prog Q' A' E X V}
    {seen : Event Q' A' E → Option (Event Q A E)} {R : List (Event Q' A' E) → Event Q' A' E → Prop}
    (himpl : Implements ok impl seen R) {p : Prog Q A E X V} {t : List (Event Q' A' E)}
    (h : Run ok (p.implement impl) t o) : Run ok p (t.filterMap seen) o ∧ Ordered R t := by
  induction p generalizing t o with
  | ret v =>
      cases h
      exact ⟨.ret v, .nil⟩
  | throw x =>
      cases h
      exact ⟨.throw x, .nil⟩
  | ask q k ih =>
      obtain ⟨a, t₁, t₂, rfl, hseen, hordered, hrun⟩ := himpl.run q _ t o h
      obtain ⟨hk, hrest⟩ := ih a hrun
      rw [List.filterMap_append, hseen]
      exact ⟨.ask a hk, hordered.append himpl.mono hrest⟩
  | emit e k ih =>
      cases h with
      | emit hrun =>
          obtain ⟨hk, hrest⟩ := ih hrun
          rw [List.filterMap_cons_some (himpl.emit e)]
          exact ⟨.emit hk, hrest.cons himpl.mono (himpl.allowed [] e)⟩
  | par n task k ihtask ih =>
      have htask : ∀ (started : Fin n → Bool) (ts : Fin n → List (Event Q' A' E)),
          (∀ i, started i = false → ts i = []) →
          (∀ i, started i = true → Ordered R (ts i)) → ∀ i, Ordered R (ts i) := by
        intro started ts hidle hrun i
        cases hi : started i with
        | false =>
            rw [hidle i hi]
            exact .nil
        | true => exact hrun i hi
      cases h with
      | par started ts os r htasks hidle hweave hjoin hk =>
          obtain ⟨hcont, hrest⟩ := ih r hk
          have hall := htask started ts hidle (fun i hi => (ihtask i (htasks i hi)).2)
          rw [List.filterMap_append]
          have hbefore : Ordered R _ := .interleaves himpl.mono hweave hall
          refine ⟨.par started _ os r (fun i hi => (ihtask i (htasks i hi)).1) (fun i hi => ?_)
            (hweave.filterMap seen) hjoin hcont, hbefore.append himpl.mono hrest⟩
          rw [hidle i hi, List.filterMap_nil]
      | parThrow started ts os x htasks hidle hweave hjoin =>
          have hall := htask started ts hidle (fun i hi => (ihtask i (htasks i hi)).2)
          refine ⟨.parThrow started _ os x (fun i hi => (ihtask i (htasks i hi)).1) (fun i hi => ?_)
            (hweave.filterMap seen) hjoin, .interleaves himpl.mono hweave hall⟩
          rw [hidle i hi, List.filterMap_nil]

end implementation

end RTBuild.Library.Task
