import Mathlib.Data.List.Basic

/-! Blocks of one size that are put together from pieces: where the pieces are cut does not matter. -/

namespace QNXStuff.Reassembly

universe u v w

variable {Item : Type u} {State : Type v} {Error : Type w}

/-- What has arrived of a block, and the state that the blocks before it have led to. -/
structure Assembly (Item : Type u) (State : Type v) where
  filled : List Item
  state : State

/-- A piece arrives. A whole block is handled, and the next one begins. -/
def push (size : Nat) (handle : State → List Item → Except Error State)
    (assembly : Assembly Item State) (piece : List Item) : Except Error (Assembly Item State) :=
  let filled := assembly.filled ++ piece
  if filled.length = size then (handle assembly.state filled).map (⟨[], ·⟩)
  else .ok { assembly with filled := filled }

/-- A stream is whole blocks and less than another one. -/
structure Cut (size : Nat) (stream : List Item) (blocks : List (List Item)) (rest : List Item) :
    Prop where
  whole : stream = blocks.flatten ++ rest
  sizes : ∀ block ∈ blocks, block.length = size
  short : rest.length < size

section Cuts

variable {size : Nat} {stream more rest rest' : List Item} {blocks blocks' : List (List Item)}

/-- What follows a stream leaves its blocks as they are. -/
theorem Cut.later (cut : Cut size stream blocks rest) (cut' : Cut size (stream ++ more) blocks' rest') :
    ∃ others, blocks' = blocks ++ others := by
  induction blocks generalizing stream blocks' with
  | nil => exact ⟨blocks', rfl⟩
  | cons block blocks ih =>
    obtain ⟨length, sizes⟩ := List.forall_mem_cons.mp cut.sizes
    have whole : stream = block ++ (blocks.flatten ++ rest) := by
      rw [cut.whole, List.flatten_cons, List.append_assoc]
    cases blocks' with
    | nil =>
      have short := cut'.short
      have all : stream ++ more = rest' := cut'.whole
      rw [← all, whole, List.length_append, List.length_append] at short
      omega
    | cons block' blocks' =>
      obtain ⟨length', sizes'⟩ := List.forall_mem_cons.mp cut'.sizes
      have same : block ++ (blocks.flatten ++ rest ++ more) = block' ++ (blocks'.flatten ++ rest') := by
        rw [← List.append_assoc, ← whole, cut'.whole, List.flatten_cons, List.append_assoc]
      obtain ⟨rfl, behind⟩ := List.append_inj same (length.trans length'.symm)
      obtain ⟨others, rfl⟩ := @ih (blocks.flatten ++ rest) blocks' ⟨rfl, sizes, cut.short⟩
        ⟨behind, sizes', cut'.short⟩
      exact ⟨others, rfl⟩

/-- A stream is cut into blocks in one way. -/
theorem Cut.unique (cut : Cut size stream blocks rest) (cut' : Cut size stream blocks' rest') :
    blocks = blocks' ∧ rest = rest' := by
  obtain ⟨others, rfl⟩ := @Cut.later _ _ stream [] _ _ _ _ cut (by rwa [List.append_nil])
  have same : rest = others.flatten ++ rest' := by
    have whole := cut.whole.symm.trans cut'.whole
    rw [List.flatten_append, List.append_assoc] at whole
    exact List.append_cancel_left whole
  cases others with
  | nil => exact ⟨(List.append_nil blocks).symm, same⟩
  | cons block others =>
    have length := cut'.sizes block (List.mem_append_right _ List.mem_cons_self)
    have short := cut.short
    rw [same, List.flatten_cons, List.length_append, List.length_append] at short
    omega

theorem exists_cut (filled : 0 < size) (stream : List Item) :
    ∃ blocks rest, Cut size stream blocks rest := by
  induction count : stream.length using Nat.strongRecOn generalizing stream with
  | _ count ih =>
    by_cases short : stream.length < size
    · exact ⟨[], stream, rfl, nofun, short⟩
    · obtain ⟨blocks, rest, cut⟩ := ih (stream.drop size).length
        (by rw [List.length_drop]; omega) (stream.drop size) rfl
      refine ⟨stream.take size :: blocks, rest, ?_, ?_, cut.short⟩
      · rw [List.flatten_cons, List.append_assoc, ← cut.whole, List.take_append_drop]
      · exact List.forall_mem_cons.mpr ⟨List.length_take_of_le (Nat.le_of_not_lt short), cut.sizes⟩

end Cuts

section Pieces

variable {size : Nat} {handle : State → List Item → Except Error State} {start : State}
  {seen piece more : List Item} {assembly next : Assembly Item State}

/-- What the pieces of a stream have led to. -/
def Assembled (size : Nat) (handle : State → List Item → Except Error State) (start : State)
    (seen : List Item) (assembly : Assembly Item State) : Prop :=
  ∃ blocks, Cut size seen blocks assembly.filled ∧
    blocks.foldlM handle start = .ok assembly.state

theorem assembled_nil (filled : 0 < size) : Assembled size handle start [] ⟨[], start⟩ :=
  ⟨[], ⟨rfl, nofun, filled⟩, rfl⟩

theorem foldlM_snoc (handle : State → List Item → Except Error State) (blocks : List (List Item))
    (block : List Item) (start : State) :
    (blocks ++ [block]).foldlM handle start =
      blocks.foldlM handle start >>= fun state => handle state block := by
  rw [List.foldlM_append]
  congr 1
  funext state
  cases done : handle state block with
  | error error => simp only [List.foldlM_cons, done, bind, Except.bind]
  | ok next => simp only [List.foldlM_cons, List.foldlM_nil, done, bind, Except.bind, pure, Except.pure]

/-- A piece that does not go beyond its block is added to the stream, unless the block is one that
cannot be handled. -/
theorem Assembled.push (assembled : Assembled size handle start seen assembly)
    (filled : 0 < size) (fits : assembly.filled.length + piece.length ≤ size) :
    (∃ next, Reassembly.push size handle assembly piece = .ok next ∧
      Assembled size handle start (seen ++ piece) next) ∨
    ∃ error blocks, Reassembly.push size handle assembly piece = .error error ∧
      Cut size (seen ++ piece) blocks [] ∧ blocks.foldlM handle start = .error error := by
  obtain ⟨blocks, cut, handled⟩ := assembled
  have stream : seen ++ piece = blocks.flatten ++ (assembly.filled ++ piece) := by
    rw [cut.whole, List.append_assoc]
  unfold Reassembly.push
  dsimp only
  rw [List.length_append]
  by_cases full : assembly.filled.length + piece.length = size
  · rw [if_pos full]
    have whole : Cut size (seen ++ piece) (blocks ++ [assembly.filled ++ piece]) [] := by
      refine ⟨by simp [stream], fun block member => ?_, filled⟩
      rcases List.mem_append.mp member with before | last
      · exact cut.sizes block before
      · rw [List.mem_singleton.mp last, List.length_append, full]
    have steps : (blocks ++ [assembly.filled ++ piece]).foldlM handle start =
        handle assembly.state (assembly.filled ++ piece) := by
      rw [foldlM_snoc, handled]
      rfl
    cases done : handle assembly.state (assembly.filled ++ piece) with
    | ok state => exact .inl ⟨⟨[], state⟩, rfl, _, whole, steps.trans done⟩
    | error error => exact .inr ⟨error, _, rfl, whole, steps.trans done⟩
  · rw [if_neg full]
    have short : (assembly.filled ++ piece).length < size := by
      rw [List.length_append]
      omega
    exact .inl ⟨_, rfl, blocks, ⟨stream, cut.sizes, short⟩, handled⟩

/-- If all blocks of a stream can be handled, every piece is. -/
theorem Assembled.push_ok (assembled : Assembled size handle start seen assembly)
    (filled : 0 < size) (fits : assembly.filled.length + piece.length ≤ size)
    {blocks : List (List Item)} {rest : List Item} {last : State}
    (cut : Cut size (seen ++ piece ++ more) blocks rest)
    (handled : blocks.foldlM handle start = .ok last) :
    ∃ next, Reassembly.push size handle assembly piece = .ok next ∧
      Assembled size handle start (seen ++ piece) next := by
  rcases assembled.push filled fits with added | ⟨error, before, _, cut', failed⟩
  · exact added
  · obtain ⟨others, rfl⟩ := cut'.later cut
    rw [List.foldlM_append, failed] at handled
    cases handled

end Pieces

end QNXStuff.Reassembly
