import QinglongCore.Isa.LaggedMemory

/-!
# A memory behind a queue

It answers a fetch in the next cycle. Data requests wait in a queue; the oldest one leaves it when the surroundings let
it, and is answered in the cycle after that.
-/

namespace QinglongCore.Isa

open CorePipeline (In)

/-- What the surroundings do in a cycle: the data accesses they let pass, and the interrupt lines. -/
structure Surroundings where
  passes : Access → Bool
  ext : Ext

/-- The fetch and the data access that are answered in this cycle, the accesses that wait, and all that were taken. -/
structure Queue where
  fetching : Option Word
  waiting : List Access
  answering : Option Access
  log : List Access

namespace Queue

def empty : Queue := ⟨none, [], none, []⟩

variable (mem₀ : Word → Word) (q : Queue) (e : Surroundings)

/-- The oldest access leaves the queue. -/
def moves : Bool := q.waiting.head?.any e.passes

def answer : In :=
  { In.quiet with
    ifetchReqReady := true
    ifetchRspValid := q.fetching.isSome
    ifetchRspData := (q.fetching.map (contents mem₀ q.log)).getD 0#32
    dmemReqReady := q.waiting.isEmpty || q.moves e
    dmemRspValid := q.answering.isSome
    dmemRspRdata := (q.answering.map fun x => contents mem₀ q.log x.addr).getD 0#32
    ext := e.ext }

/-- The queue after a cycle in which the core has shown `c`. -/
def next (c : Shown) : Queue where
  fetching := c.fetch
  waiting := (if q.moves e then q.waiting.tail else q.waiting) ++ c.access.toList
  answering := if q.moves e then q.waiting.head? else none
  log := q.log ++ c.access.toList

end Queue

/-- A core and the contents of its memory. -/
structure QueuedBench (σ : Type) where
  mem₀ : Word → Word
  start : σ
  step : σ → In → σ
  shows : σ → In → Shown

namespace QueuedBench

variable {σ : Type} (b : QueuedBench σ) (env : Nat → Surroundings)

/-- The core on this memory. -/
def run : Nat → σ × Queue
  | 0 => (b.start, .empty)
  | t + 1 =>
      let x := run t
      let i := x.2.answer b.mem₀ (env t)
      (b.step x.1 i, x.2.next (env t) (b.shows x.1 i))

def inp (t : Nat) : In := (b.run env t).2.answer b.mem₀ (env t)

def shown (t : Nat) : Shown := b.shows (b.run env t).1 (b.inp env t)

variable {b env}

/-! ## The queue and the requests -/

theorem run_eq (t : Nat) : Sync.run b.step b.start (b.inp env) t = (b.run env t).1 := by
  induction t with
  | zero => rfl
  | succ t ih =>
      rw [Sync.run_succ, ih]
      rfl

theorem queue_succ (t : Nat) : (b.run env (t + 1)).2 = (b.run env t).2.next (env t) (b.shown env t) := rfl

theorem log_eq (t : Nat) : (b.run env t).2.log = accesses (b.shown env) t := by
  induction t with
  | zero => rfl
  | succ t ih =>
      rw [accesses, ← ih]
      rfl

theorem fetch_answer (t : Nat) : (b.inp env (t + 1)).ifetchRspValid = (b.shown env t).fetch.isSome := rfl

theorem fetch_quiet {t : Nat} (h : t < 1) : (b.inp env t).ifetchRspValid = false := by
  obtain rfl : t = 0 := by omega
  rfl

/-- The unanswered requests are the access that is answered now and those that wait behind it. -/
theorem outstanding_eq (t : Nat) :
    (requests (b.shown env) (b.inp env) t).map (fun a => (b.shown env a).access) =
      ((b.run env t).2.answering.toList ++ (b.run env t).2.waiting).map some := by
  induction t with
  | zero => rfl
  | succ t ih =>
      have hret : (b.inp env t).dmemRspValid = (b.run env t).2.answering.isSome := rfl
      have hrest : (if (b.inp env t).dmemRspValid then (requests (b.shown env) (b.inp env) t).tail
          else requests (b.shown env) (b.inp env) t).map (fun a => (b.shown env a).access) =
          (b.run env t).2.waiting.map some := by
        rw [hret]
        cases ha : (b.run env t).2.answering with
        | none => simpa [ha] using ih
        | some x =>
            rw [ha] at ih
            have h := congrArg List.tail ih
            simpa using h
      have hnew : (if ((b.shown env t).access).isSome then [t] else []).map (fun a => (b.shown env a).access) =
          (b.shown env t).access.toList.map some := by
        cases hx : (b.shown env t).access <;> simp [hx]
      have hmove : (if (b.run env t).2.moves (env t) then (b.run env t).2.waiting.head? else none).toList ++
          (if (b.run env t).2.moves (env t) then (b.run env t).2.waiting.tail else (b.run env t).2.waiting) =
          (b.run env t).2.waiting := by
        cases hm : (b.run env t).2.moves (env t)
        · rfl
        · cases hw : (b.run env t).2.waiting <;> rfl
      show (List.map _ (_ ++ _)) = _
      rw [List.map_append, hrest, hnew, queue_succ]
      show _ = ((if (b.run env t).2.moves (env t) then (b.run env t).2.waiting.head? else none).toList ++
        ((if (b.run env t).2.moves (env t) then (b.run env t).2.waiting.tail else (b.run env t).2.waiting) ++
          (b.shown env t).access.toList)).map some
      rw [← List.append_assoc, hmove, List.map_append]

/-! ## It serves the core -/

theorem served : Served (b.shown env) b.mem₀ (b.inp env) where
  fetch := InOrder.serves_of_lag (fun _ => fetch_quiet) fetch_answer Nat.one_pos fun t ht => by
    obtain ⟨x, hx⟩ := Option.isSome_iff_exists.mp ht
    refine ⟨t + 1, x, by omega, Nat.le_refl _, hx, ?_⟩
    show (((b.shown env t).fetch.map (contents b.mem₀ (b.run env (t + 1)).2.log)).getD 0#32) = _
    rw [hx, log_eq]
    rfl
  data t ht := by
    have ho := @outstanding_eq _ b env t
    obtain ⟨x, hx⟩ := Option.isSome_iff_exists.mp ht
    rw [hx, Option.toList_some, List.singleton_append, List.map_cons, List.map_eq_cons_iff] at ho
    obtain ⟨a, l, hl, ha, -⟩ := ho
    refine ⟨a, l, hl, x, ha, ?_⟩
    show (((b.run env t).2.answering.map fun y => contents b.mem₀ (b.run env t).2.log y.addr).getD 0#32) = _
    rw [hx, log_eq]
    rfl
  fetchClean _ _ := rfl
  dataClean _ _ := ⟨rfl, rfl⟩

section
variable (hpass : ∀ t, ∃ u, t ≤ u ∧ ∀ x, (env u).passes x = true)
include hpass

/-- Whatever waits is answered. -/
theorem waiting_answered {t : Nat} (h : (b.run env t).2.waiting ≠ []) :
    ∃ u, t ≤ u ∧ (b.run env u).2.answering.isSome = true := by
  by_contra hn
  have hno : ∀ u, t ≤ u → (b.run env u).2.answering = none := by
    intro u hu
    by_contra hs
    exact hn ⟨u, hu, Option.isSome_iff_ne_none.mpr hs⟩
  have hstuck : ∀ u, t ≤ u → (b.run env u).2.waiting ≠ [] → (b.run env u).2.moves (env u) = false := by
    intro u hu hw
    by_contra hm
    have hans : (b.run env (u + 1)).2.answering = (b.run env u).2.waiting.head? :=
      if_pos (Bool.not_eq_false _ ▸ hm)
    rw [hno (u + 1) (by omega), eq_comm, List.head?_eq_none_iff] at hans
    exact hw hans
  have hstays : ∀ u, t ≤ u → (b.run env u).2.waiting ≠ [] := by
    intro u hu
    induction u, hu using Nat.le_induction with
    | base => exact h
    | succ u hu ih =>
        have hnext : (b.run env (u + 1)).2.waiting = (if (b.run env u).2.moves (env u) then
          (b.run env u).2.waiting.tail else (b.run env u).2.waiting) ++ (b.shown env u).access.toList := rfl
        rw [hnext, hstuck u hu ih]
        simp [ih]
  obtain ⟨u, hu, hp⟩ := hpass t
  obtain ⟨x, l, hw⟩ := List.exists_cons_of_ne_nil (hstays u hu)
  have hm := hstuck u hu (hstays u hu)
  rw [Queue.moves, hw, List.head?_cons, Option.any_some, hp] at hm
  cases hm

theorem willing : Willing (b.shown env) (b.inp env) where
  fetchReady t := ⟨t, Nat.le_refl t, rfl⟩
  dataReady t := by
    obtain ⟨u, hu, hp⟩ := hpass t
    refine ⟨u, hu, ?_⟩
    show ((b.run env u).2.waiting.isEmpty || (b.run env u).2.moves (env u)) = true
    cases hw : (b.run env u).2.waiting with
    | nil => rfl
    | cons x l => simp [Queue.moves, hw, hp]
  fetchPrompt := InOrder.prompt_of_lag (fun _ => fetch_quiet) fetch_answer Nat.one_pos
  dataPrompt t ht := by
    have ho := @outstanding_eq _ b env t
    cases ha : (b.run env t).2.answering with
    | some x => exact ⟨t, Nat.le_refl t, by show (b.run env t).2.answering.isSome = true; rw [ha]; rfl⟩
    | none =>
        rw [ha] at ho
        refine waiting_answered hpass fun hw => ht ?_
        rw [hw] at ho
        simpa using ho

end

end QueuedBench

end QinglongCore.Isa
