import Mathlib.Tactic.Common

/-!
# Serial lines

8N1 framing on a line that is sampled once a clock cycle, `d` cycles to the bit: a start bit, eight data bits with the
least significant first, and a stop bit. The receiver accepts nothing but whole frames.
-/

namespace Serial

/-- The ten bits that carry a byte. -/
def symbols (b : BitVec 8) : List Bool := false :: ((List.range 8).map b.getLsbD ++ [true])

/-- The samples that carry a byte. -/
def frame (d : Nat) (b : BitVec 8) : List Bool := (symbols b).flatMap (List.replicate d)

/-- A bit received goes in at the top. -/
def shiftIn (v : BitVec 8) (bit : Bool) : BitVec 8 := BitVec.ofBool bit ++ v.extractLsb' 1 7

/-- The byte in a run of samples: the first sample of each data bit. -/
def dataOf (d : Nat) (f : List Bool) : BitVec 8 :=
  ((List.range 8).map fun j => f.getD ((j + 1) * d) true).foldl shiftIn 0

/-- The samples since the last start edge, the bytes received, and whether a run of samples was no frame. -/
structure Receiver where
  samples : List Bool
  bytes : List (BitVec 8)
  error : Bool

/-- A high line between frames is idle. Ten bit periods from the start edge on are a frame. -/
def Receiver.sample (d : Nat) (r : Receiver) (line : Bool) : Receiver :=
  if r.samples = [] ∧ line = true then r
  else
    let f := r.samples ++ [line]
    if f.length = 10 * d then
      { samples := [], bytes := r.bytes ++ [dataOf d f], error := r.error || f != frame d (dataOf d f) }
    else { r with samples := f }

/-- What is received from a line in the cycles before `t`. -/
def receive (d : Nat) (line : Nat → Bool) (t : Nat) : Receiver :=
  ((List.range t).map line).foldl (Receiver.sample d) ⟨[], [], false⟩

/-! ## Frames -/

variable {d : Nat} {b : BitVec 8}

theorem receive_succ (line : Nat → Bool) (t : Nat) :
    receive d line (t + 1) = (receive d line t).sample d (line t) := by
  simp [receive, List.range_succ]

@[simp] theorem length_symbols (b : BitVec 8) : (symbols b).length = 10 := by simp [symbols]

/-- In a line of bits that are `d` cycles long each, cycle `c` of bit `k` shows bit `k`. -/
theorem getElem?_periods {α : Type} (l : List α) (k : Nat) {c : Nat} (hc : c < d) :
    (l.flatMap (List.replicate d))[k * d + c]? = l[k]? := by
  induction l generalizing k with
  | nil => simp
  | cons x l ih =>
    rw [List.flatMap_cons]
    cases k with
    | zero =>
      rw [List.getElem?_append_left (by simpa using hc), List.getElem?_replicate, if_pos (by omega)]
      rfl
    | succ k =>
      rw [List.getElem?_append_right (by simp [Nat.succ_mul]; omega), List.length_replicate,
        show (k + 1) * d + c - d = k * d + c by rw [Nat.succ_mul]; omega, ih, List.getElem?_cons_succ]

theorem length_frame (d : Nat) (b : BitVec 8) : (frame d b).length = 10 * d := by
  simp only [frame, List.length_flatMap, List.length_replicate, List.map_const', List.sum_replicate_nat, length_symbols]

theorem getElem?_frame {k c : Nat} (hc : c < d) : (frame d b)[k * d + c]? = (symbols b)[k]? :=
  getElem?_periods (symbols b) k hc

theorem shiftIn_all (b : BitVec 8) : ((List.range 8).map b.getLsbD).foldl shiftIn 0 = b := by
  revert b
  decide

/-- The byte in a frame is the byte that it carries. -/
theorem dataOf_frame (hd : 0 < d) : dataOf d (frame d b) = b := by
  have hmap : (List.range 8).map (fun j => (frame d b).getD ((j + 1) * d) true) = (List.range 8).map b.getLsbD := by
    apply List.map_congr_left
    intro j hj
    have hlt := List.mem_range.mp hj
    have hs := getElem?_frame (b := b) (k := j + 1) hd
    rw [Nat.add_zero] at hs
    rw [List.getD_eq_getElem?_getD, hs, symbols, List.getElem?_cons_succ, List.getElem?_append_left (by simpa using hlt),
      List.getElem?_map, List.getElem?_range hlt]
    rfl
  rw [dataOf, hmap, shiftIn_all]

/-! ## Receiving a frame -/

variable {r : Receiver}

theorem sample_idle (h : r.samples = []) : r.sample d true = r := if_pos ⟨h, rfl⟩

/-- The first sample of a frame is low, and so none of its samples is taken for an idle line. -/
theorem frame_not_idle (hd : 0 < d) {n : Nat} {line : Bool} (hline : (frame d b)[n]? = some line) :
    ¬ ((frame d b).take n = [] ∧ line = true) := by
  rintro ⟨hnil, rfl⟩
  have hlen := congrArg List.length hnil
  have hlt := (List.getElem?_eq_some_iff.mp hline).1
  rw [List.length_take, List.length_nil] at hlen
  have hz : n = 0 := by omega
  have hs := getElem?_frame (b := b) (k := 0) hd
  rw [hz] at hline
  rw [Nat.zero_mul, Nat.add_zero, hline] at hs
  exact absurd hs (by simp [symbols])

theorem take_frame {n : Nat} {line : Bool} (hline : (frame d b)[n]? = some line) :
    (frame d b).take n ++ [line] = (frame d b).take (n + 1) := by
  obtain ⟨hlt, hg⟩ := List.getElem?_eq_some_iff.mp hline
  rw [← hg, List.take_append_getElem]

/-- A sample within a frame. -/
theorem sample_within (hd : 0 < d) {n : Nat} {line : Bool} (h : r.samples = (frame d b).take n)
    (hline : (frame d b)[n]? = some line) (hn : n + 1 < 10 * d) :
    r.sample d line = { r with samples := (frame d b).take (n + 1) } := by
  have hlen : ((frame d b).take (n + 1)).length = n + 1 := by
    rw [List.length_take, length_frame]
    omega
  unfold Receiver.sample
  rw [h, if_neg (frame_not_idle hd hline), take_frame hline]
  exact if_neg (by rw [hlen]; omega)

/-- The last sample of a frame. -/
theorem sample_last (hd : 0 < d) {n : Nat} {line : Bool} (h : r.samples = (frame d b).take n)
    (hline : (frame d b)[n]? = some line) (hn : n + 1 = 10 * d) :
    r.sample d line = { samples := [], bytes := r.bytes ++ [b], error := r.error } := by
  have hall : (frame d b).take (n + 1) = frame d b := by
    rw [hn, ← length_frame d b, List.take_length]
  unfold Receiver.sample
  rw [h, if_neg (frame_not_idle hd hline), take_frame hline, hall]
  simp [length_frame, dataOf_frame hd]

end Serial
