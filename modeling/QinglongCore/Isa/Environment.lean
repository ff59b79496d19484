import QinglongCore.Base.InOrder
import QinglongCore.Isa.Machine
import QinglongCore.Rtl.CorePipeline

/-!
# A core between its buses and its commit port

What a core shows to the outside in each cycle, and what a memory answers that both of its buses lead to.
-/

namespace QinglongCore.Isa

/-- The accepted fetch, the accepted data access and the commit of a cycle. -/
structure Shown where
  fetch : Option Word
  access : Option Access
  retired : Option Retirement

/-- The link that a reservation register holds. -/
def linkOf (r : CorePipeline.Resv) : Option (BitVec 30) := if r.valid then some r.addr else none

/-- The access that the request lines of the data bus describe. -/
def portAccess (addr : Word) (wen : Bool) (wdata : Word) (wmask : BitVec 4) (size : BitVec 2) : Access :=
  if wen then .write addr size wdata wmask else .read addr size

section
variable (c : Nat → Shown)

/-- The accesses before cycle `t`. -/
def accesses : Nat → List Access
  | 0 => []
  | t + 1 => accesses t ++ (c t).access.toList

/-- The retirements before cycle `t`. -/
def retirements : Nat → List Retirement
  | 0 => []
  | t + 1 => retirements t ++ (c t).retired.toList

variable (mem₀ : Word → Word) (inp : Nat → CorePipeline.In)

/-- Fetches that are not answered yet. -/
abbrev fetches : Nat → List Nat := InOrder.outstanding (fun t => (c t).fetch.isSome) fun t => (inp t).ifetchRspValid

/-- Data accesses that are not answered yet. -/
abbrev requests : Nat → List Nat := InOrder.outstanding (fun t => (c t).access.isSome) fun t => (inp t).dmemRspValid

/-- Each request is answered at most once, in a later cycle and in order, without a fault and with the contents of
the memory: those of some cycle since the request for a fetch. -/
structure Served : Prop where
  fetch : InOrder.Serves (fun t => (c t).fetch.isSome) (fun t => (inp t).ifetchRspValid) fun a t =>
    ∃ u x, a ≤ u ∧ u ≤ t ∧ (c a).fetch = some x ∧ (inp t).ifetchRspData = contents mem₀ (accesses c u) x
  data : InOrder.Serves (fun t => (c t).access.isSome) (fun t => (inp t).dmemRspValid) fun a t =>
    ∃ x, (c a).access = some x ∧ (inp t).dmemRspRdata = contents mem₀ (accesses c t) x.addr
  fetchClean : ∀ t, (inp t).ifetchRspValid = true → ((inp t).ifetchRspFault || (inp t).ifetchRspPagefault) = false
  dataClean : ∀ t, (inp t).dmemRspValid = true → (inp t).dmemRspFault = false ∧ (inp t).dmemRspPagefault = false

/-- Both buses go on accepting, and answer whatever they accept. -/
structure Willing : Prop where
  fetchReady : ∀ t, ∃ u, t ≤ u ∧ (inp u).ifetchReqReady = true
  dataReady : ∀ t, ∃ u, t ≤ u ∧ (inp u).dmemReqReady = true
  fetchPrompt : InOrder.Prompt (fun t => (c t).fetch.isSome) fun t => (inp t).ifetchRspValid
  dataPrompt : InOrder.Prompt (fun t => (c t).access.isSome) fun t => (inp t).dmemRspValid

/-- The fetch bus takes no second request before it has answered the first. -/
def OneFetch : Prop := ∀ t, (fetches c inp t).length ≤ 1

/-! ## Prefixes of a run -/

variable (T : Nat)

/-- Before cycle `T` only ordinary instructions retire, without a trap. -/
def Plain : Prop := ∀ t, t < T → ∀ r, (c t).retired = some r → r.trap = false ∧ ordinary r.insn = true

/-- No instruction stores to a word that is executed later, before cycle `T`. -/
def CodeKept : Prop := ∀ u w v a z d m r, u ≤ w → w < v → v < T → (c u).access = some (.write a z d m) →
  (c w).retired.isSome = true → (c v).retired = some r → alignWord r.pc ≠ a

end

/-- Whatever `c` retires before cycle `T`, `c'` retires too, after the same retirements and the same accesses. -/
def Repeats (c c' : Nat → Shown) (T : Nat) : Prop := ∀ u, u < T → ∀ r, (c u).retired = some r →
  ∃ t, (c' t).retired = some r ∧ retirements c' t = retirements c u ∧ accesses c' t = accesses c u

/-- The instruction after `k` others from `A` on retires in cycle `t`, with the accesses up to its own. -/
structure Performs (mem₀ : Word → Word) (A : Arch) (c : Nat → Shown) (k t : Nat) : Prop where
  retired : (c t).retired = some ((A.run mem₀ k).retires mem₀ ((A.run mem₀ k).insn mem₀))
  before : retirements c t = A.trace mem₀ k
  accesses : accesses c t = (A.run mem₀ (k + 1)).accesses

/-- The word of the instruction after `k` others from `A` on is the one that memory has held from the start. -/
def Unwritten (mem₀ : Word → Word) (A : Arch) (k : Nat) : Prop := ∀ l, l <+: (A.run mem₀ k).accesses →
  contents mem₀ l (A.run mem₀ k).pc = (A.run mem₀ k).insn mem₀

variable {c : Nat → Shown} {mem₀ : Word → Word} {inp : Nat → CorePipeline.In} {l : List Access} {a t u v : Nat}

/-! ## Accesses -/

theorem accesses_quiet (h : (c t).access = none) : accesses c (t + 1) = accesses c t := by
  simp [accesses, h]

theorem accesses_more {x : Access} (h : (c t).access = some x) : accesses c (t + 1) = accesses c t ++ [x] := by
  simp [accesses, h]

theorem accesses_prefix (h : u ≤ v) : accesses c u <+: accesses c v := by
  induction v, h using Nat.le_induction with
  | base => exact List.prefix_rfl
  | succ v h ih => exact ih.trans (List.prefix_append _ _)

/-- Between two cycles with the same accesses there is no other. -/
theorem accesses_between (h : accesses c a = accesses c t) (hu : a ≤ u) (ht : u ≤ t) :
    accesses c u = accesses c t := by
  have h₁ := accesses_prefix (c := c) hu
  have h₂ := accesses_prefix (c := c) ht
  rw [h] at h₁
  exact h₂.eq_of_length (Nat.le_antisymm h₂.length_le h₁.length_le)

theorem alignWord_alignWord (x : Word) : alignWord (alignWord x) = alignWord x := by
  unfold alignWord
  rw [BitVec.and_assoc, BitVec.and_self]

theorem contents_alignWord (x : Word) : contents mem₀ l (alignWord x) = contents mem₀ l x := by
  unfold contents
  rw [alignWord_alignWord]

theorem contents_read (y : Word) (z : BitVec 2) (x : Word) :
    contents mem₀ (l ++ [.read y z]) x = contents mem₀ l x := by
  have hr : [Access.read y z].filterMap Access.store = [] := rfl
  rw [contents, List.filterMap_append, hr, List.append_nil]
  rfl

theorem contents_untouched {x : Word} (h : ∀ y ∈ l, ∀ st, y.store = some st → alignWord x ≠ st.addr) :
    contents mem₀ l x = mem₀ (alignWord x) := by
  have hlog : ∀ log : List Store, (∀ st ∈ log, alignWord x ≠ st.addr) →
      written mem₀ log (alignWord x) = mem₀ (alignWord x) := by
    intro log hl
    induction log with
    | nil => rfl
    | cons st log ih =>
        rw [written_other (hl st List.mem_cons_self)]
        exact ih fun st' h' => hl st' (List.mem_cons_of_mem _ h')
  refine hlog _ fun st hst => ?_
  rw [List.mem_reverse, List.mem_filterMap] at hst
  obtain ⟨y, hy, hst⟩ := hst
  exact h y hy st hst

theorem mem_accesses {x : Access} (h : x ∈ accesses c t) : ∃ u, u < t ∧ (c u).access = some x := by
  induction t with
  | zero => simp [accesses] at h
  | succ t ih =>
      rw [accesses, List.mem_append] at h
      rcases h with h | h
      · obtain ⟨u, hu, hx⟩ := ih h
        exact ⟨u, by omega, hx⟩
      · exact ⟨t, by omega, by simpa using h⟩

/-! ## Retirements -/

variable {A : Arch} {j k : Nat}

theorem trace_length : (A.trace mem₀ k).length = k := by
  induction k with
  | zero => rfl
  | succ k ih => simp [Arch.trace, ih]

theorem retirements_length_le (h : u ≤ v) : (retirements c u).length ≤ (retirements c v).length := by
  induction v, h using Nat.le_induction with
  | base => exact Nat.le_refl _
  | succ v h ih => exact ih.trans (by simp [retirements])

theorem Performs.lt (h : Performs mem₀ A c j u) (h' : Performs mem₀ A c k v) (hjk : j < k) : u < v := by
  by_contra hn
  have hle := retirements_length_le (c := c) (Nat.le_of_not_lt hn)
  rw [h.before, h'.before, trace_length, trace_length] at hle
  omega

/-- In a prefix that keeps its code no store has been to the word of an instruction. -/
theorem CodeKept.unwritten {T : Nat} (h : CodeKept c T) (hk : ∀ j, j ≤ k → ∃ t, t < T ∧ Performs mem₀ A c j t)
    (hnil : A.accesses = []) : Unwritten mem₀ A k := by
  have hfree : ∀ x ∈ (A.run mem₀ k).accesses, ∀ st, x.store = some st → alignWord (A.run mem₀ k).pc ≠ st.addr := by
    intro x hx st hst
    obtain ⟨v, hv, hpv⟩ := hk k (Nat.le_refl k)
    cases k with
    | zero =>
        have hx' : x ∈ A.accesses := hx
        rw [hnil] at hx'
        simp at hx'
    | succ k =>
        obtain ⟨w, -, hpw⟩ := hk k (by omega)
        rw [← hpw.accesses] at hx
        obtain ⟨u, hu, hacc⟩ := mem_accesses hx
        have hw := hpw.lt hpv (by omega)
        cases x with
        | read a z => simp [Access.store] at hst
        | write a z d m =>
            simp only [Access.store, Option.some.injEq] at hst
            rw [← hst]
            exact h u w v a z d m _ (by omega) hw hv hacc (by rw [hpw.retired]; rfl) hpv.retired
  have hcont : ∀ l, l <+: (A.run mem₀ k).accesses →
      contents mem₀ l (A.run mem₀ k).pc = mem₀ (alignWord (A.run mem₀ k).pc) := fun l hl =>
    contents_untouched fun y hy => hfree y (hl.subset hy)
  intro l hl
  rw [hcont l hl]
  exact (hcont _ List.prefix_rfl).symm

end QinglongCore.Isa
