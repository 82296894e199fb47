import Mathlib.Data.List.Basic

/-! # Streams cut into equal chunks

A stream is a list; `chunks size` are the complete pieces of `size` elements at its front.
The chunks followed by what remains are the stream, and they are the only way to cut it
into pieces of that size with less than one piece remaining.
-/

namespace NodeWebrtc.Stream

universe u

variable {α : Type u}

/-- The complete chunks at the front of `xs`. -/
def chunks (size : Nat) (xs : List α) : List (List α) :=
  (List.range (xs.length / size)).map fun i => (xs.drop (i * size)).take size

/-- What remains after the complete chunks. -/
def remainder (size : Nat) (xs : List α) : List α := xs.drop (xs.length / size * size)

theorem length_of_mem_chunks {size : Nat} {xs c : List α} (h : c ∈ chunks size xs) :
    c.length = size := by
  simp only [chunks, List.mem_map, List.mem_range] at h
  obtain ⟨i, hi, rfl⟩ := h
  have hnext : (i + 1) * size ≤ xs.length / size * size := Nat.mul_le_mul_right size hi
  have htotal : xs.length / size * size ≤ xs.length := Nat.div_mul_le_self xs.length size
  have hsucc : (i + 1) * size = i * size + size := Nat.succ_mul i size
  simp only [List.length_take, List.length_drop]
  omega

theorem length_remainder_lt {size : Nat} (h : 0 < size) (xs : List α) :
    (remainder size xs).length < size := by
  have hmod : xs.length % size < size := Nat.mod_lt xs.length h
  have hdiv : xs.length / size * size + xs.length % size = xs.length := by
    rw [Nat.mul_comm]
    exact Nat.div_add_mod xs.length size
  simp only [remainder, List.length_drop]
  omega

/-- The first `n` pieces of `size` elements are the first `n * size` elements. -/
theorem flatten_pieces (size n : Nat) (xs : List α) :
    ((List.range n).map fun i => (xs.drop (i * size)).take size).flatten = xs.take (n * size) := by
  induction n with
  | zero => simp
  | succ n ih =>
    rw [List.range_succ, List.map_append, List.flatten_append, ih, Nat.succ_mul, List.take_add]
    simp

theorem flatten_chunks_append (size : Nat) (xs : List α) :
    (chunks size xs).flatten ++ remainder size xs = xs := by
  rw [chunks, remainder, flatten_pieces]
  exact List.take_append_drop _ xs

theorem length_flatten_of_forall {size : Nat} {cs : List (List α)}
    (h : ∀ c ∈ cs, c.length = size) : cs.flatten.length = cs.length * size := by
  induction cs with
  | nil => simp
  | cons c cs ih =>
    have htail : cs.flatten.length = cs.length * size :=
      ih fun d hd => h d (List.mem_cons_of_mem c hd)
    simp only [List.flatten_cons, List.length_append, List.length_cons, htail,
      h c List.mem_cons_self, Nat.succ_mul]
    omega

/-- As many chunks of one size in front of anything determine the chunks. -/
theorem flatten_append_inj {size : Nat} {cs ds : List (List α)} {rest rest' : List α}
    (hcs : ∀ c ∈ cs, c.length = size) (hds : ∀ d ∈ ds, d.length = size)
    (hlength : cs.length = ds.length) (h : cs.flatten ++ rest = ds.flatten ++ rest') :
    cs = ds := by
  induction cs generalizing ds with
  | nil => exact (List.length_eq_zero_iff.mp hlength.symm).symm
  | cons c cs ih =>
    cases ds with
    | nil => simp at hlength
    | cons d ds =>
      simp only [List.flatten_cons, List.append_assoc] at h
      have hsame : c.length = d.length :=
        (hcs c List.mem_cons_self).trans (hds d List.mem_cons_self).symm
      obtain ⟨hhead, htail⟩ := List.append_inj h hsame
      rw [hhead, ih (fun e he => hcs e (List.mem_cons_of_mem c he))
        (fun e he => hds e (List.mem_cons_of_mem d he)) (Nat.succ.inj hlength) htail]

/-- A cut of a stream into chunks with less than a chunk remaining is the cut. -/
theorem chunks_eq_of_flatten {size : Nat} {xs rest : List α} {cs : List (List α)}
    (hcs : ∀ c ∈ cs, c.length = size) (hrest : rest.length < size)
    (hxs : xs = cs.flatten ++ rest) : chunks size xs = cs := by
  have hpos : 0 < size := Nat.lt_of_le_of_lt (Nat.zero_le _) hrest
  have hcount : xs.length / size = cs.length := by
    rw [hxs, List.length_append, length_flatten_of_forall hcs, Nat.add_comm,
      Nat.add_mul_div_right _ _ hpos, Nat.div_eq_of_lt hrest, Nat.zero_add]
  have hlength : (chunks size xs).length = cs.length := by simp [chunks, hcount]
  have hsame : (chunks size xs).flatten ++ remainder size xs = cs.flatten ++ rest :=
    (flatten_chunks_append size xs).trans hxs
  exact flatten_append_inj (fun c hc => length_of_mem_chunks hc) hcs hlength hsame

end NodeWebrtc.Stream
