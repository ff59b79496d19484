import QinglongCore.Isa.Environment

/-!
# A memory behind both buses

It takes every request at once and answers in order: data requests in the next cycle, fetches some cycles later.
-/

namespace QinglongCore.Isa

open CorePipeline (In)

/-- The accesses of a history that has its latest cycle first. -/
def made (h : List Shown) : List Access := h.reverse.filterMap Shown.access

/-- A core, the contents of its memory and what a fetch takes longer than one cycle. -/
structure Bench (σ : Type) where
  mem₀ : Word → Word
  lag : Nat
  start : σ
  step : σ → In → σ
  shows : σ → In → Shown

namespace Bench

variable {σ : Type} (b : Bench σ)

/-- What the memory answers after the history `h`. -/
def answer (h : List Shown) : In :=
  let fetch := h[b.lag]?.bind Shown.fetch
  let access := h[0]?.bind Shown.access
  { In.quiet with
    ifetchReqReady := true
    ifetchRspValid := fetch.isSome
    ifetchRspData := contents b.mem₀ (made h) (fetch.getD 0#32)
    dmemReqReady := true
    dmemRspValid := access.isSome
    dmemRspRdata := contents b.mem₀ (made h) ((access.map Access.addr).getD 0#32) }

/-- The core on this memory, with its history. -/
def run : Nat → σ × List Shown
  | 0 => (b.start, [])
  | t + 1 =>
      let x := run t
      let i := b.answer x.2
      (b.step x.1 i, b.shows x.1 i :: x.2)

def inp (t : Nat) : In := b.answer (b.run t).2

def shown (t : Nat) : Shown := b.shows (b.run t).1 (b.inp t)

/-! ## The history -/

theorem run_eq (t : Nat) : Sync.run b.step b.start b.inp t = (b.run t).1 := by
  induction t with
  | zero => rfl
  | succ t ih =>
      rw [Sync.run_succ, ih]
      rfl

theorem history_succ (t : Nat) : (b.run (t + 1)).2 = b.shown t :: (b.run t).2 := rfl

/-- The history has cycle `t` at depth `j` when it is `j + 1` cycles old. -/
theorem history_get (t j : Nat) : (b.run (t + (j + 1))).2[j]? = some (b.shown t) := by
  induction j with
  | zero => rfl
  | succ j ih =>
      rw [← Nat.add_assoc, history_succ, List.getElem?_cons_succ]
      exact ih

theorem history_none {t j : Nat} (h : t < j + 1) : (b.run t).2[j]? = none := by
  induction t generalizing j with
  | zero => rfl
  | succ t ih =>
      obtain ⟨j, rfl⟩ : ∃ k, j = k + 1 := ⟨j - 1, by omega⟩
      rw [history_succ, List.getElem?_cons_succ]
      exact ih (by omega)

theorem made_history (t : Nat) : made (b.run t).2 = accesses b.shown t := by
  induction t with
  | zero => rfl
  | succ t ih =>
      rw [history_succ, accesses, ← ih, made, List.reverse_cons, List.filterMap_append, List.filterMap_cons]
      cases (b.shown t).access <;> rfl

/-! ## The answers -/

theorem fetch_answer (t : Nat) : (b.inp (t + (b.lag + 1))).ifetchRspValid = (b.shown t).fetch.isSome := by
  simp only [inp, answer, b.history_get, Option.bind_some]

theorem fetch_quiet {t : Nat} (h : t < b.lag + 1) : (b.inp t).ifetchRspValid = false := by
  simp only [inp, answer, b.history_none h, Option.bind_none, Option.isSome_none]

theorem data_answer (t : Nat) : (b.inp (t + 1)).dmemRspValid = (b.shown t).access.isSome := by
  simp only [inp, answer, b.history_get t 0, Option.bind_some]

theorem data_quiet {t : Nat} (h : t < 1) : (b.inp t).dmemRspValid = false := by
  simp only [inp, answer, b.history_none h, Option.bind_none, Option.isSome_none]

theorem served : Served b.shown b.mem₀ b.inp where
  fetch := InOrder.serves_of_lag (fun _ => b.fetch_quiet) b.fetch_answer (Nat.succ_pos _) fun t ht => by
    obtain ⟨x, hx⟩ := Option.isSome_iff_exists.mp ht
    refine ⟨t + (b.lag + 1), x, by omega, Nat.le_refl _, hx, ?_⟩
    simp only [inp, answer, b.history_get, Option.bind_some, hx, Option.getD_some, b.made_history]
  data := InOrder.serves_of_lag (fun _ => b.data_quiet) b.data_answer Nat.one_pos fun t ht => by
    obtain ⟨x, hx⟩ := Option.isSome_iff_exists.mp ht
    refine ⟨x, hx, ?_⟩
    simp only [inp, answer, b.history_get t 0, Option.bind_some, hx, Option.map_some, Option.getD_some, b.made_history]
  fetchClean _ _ := rfl
  dataClean _ _ := ⟨rfl, rfl⟩

theorem willing : Willing b.shown b.inp where
  fetchReady t := ⟨t, Nat.le_refl t, rfl⟩
  dataReady t := ⟨t, Nat.le_refl t, rfl⟩
  fetchPrompt := InOrder.prompt_of_lag (fun _ => b.fetch_quiet) b.fetch_answer (Nat.succ_pos _)
  dataPrompt := InOrder.prompt_of_lag (fun _ => b.data_quiet) b.data_answer Nat.one_pos

/-- Without a lag no two fetches are open at a time. -/
theorem oneFetch (h : b.lag = 0) : OneFetch b.shown b.inp := by
  intro t
  have hans := b.fetch_answer
  have hq := @fetch_quiet σ b
  rw [h] at hans hq
  rw [fetches, InOrder.outstanding_of_lag (fun _ => hq) hans Nat.one_pos]
  refine (List.length_filter_le _ _).trans ?_
  rw [List.length_range']
  exact Nat.min_le_right t 1

end Bench

end QinglongCore.Isa
