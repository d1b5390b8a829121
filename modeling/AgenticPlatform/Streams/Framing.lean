import AgenticPlatform.Streams.Emitter

/-! Texts cut into blocks by a doubled separator, and the assembly of blocks from chunks: what is
cut off does not depend on how the text arrives. -/
namespace Streams
open Emitter
variable {α : Type}

/-- The elements in front of the first piece. -/
def prepend (xs : List α) : List (List α) → List (List α)
  | [] => [xs]
  | piece :: rest => (xs ++ piece) :: rest

theorem prepend_prepend {xs ys : List α} {pieces : List (List α)} :
    prepend xs (prepend ys pieces) = prepend (xs ++ ys) pieces := by
  cases pieces with
  | nil => rfl
  | cons piece rest => simp [prepend]

theorem prepend_ne_nil {xs : List α} {pieces : List (List α)} : prepend xs pieces ≠ [] := by
  cases pieces with
  | nil => exact List.cons_ne_nil _ _
  | cons piece rest => exact List.cons_ne_nil _ _

variable [DecidableEq α] {nl : α}

/-- `text.split(sep)` for one separator. -/
def splitLines (nl : α) : List α → List (List α)
  | [] => [[]]
  | c :: rest => if c = nl then [] :: splitLines nl rest else prepend [c] (splitLines nl rest)

/-- `text.split(sep)` where the separator is `nl` twice. -/
def splitBlocks (nl : α) : List α → List (List α)
  | [] => [[]]
  | [c] => [[c]]
  | c :: d :: rest =>
      if c = nl ∧ d = nl then [] :: splitBlocks nl rest
        else prepend [c] (splitBlocks nl (d :: rest))

section
variable {xs ys line rest : List α} {c : α}

theorem splitLines_ne_nil : splitLines nl xs ≠ [] := by
  fun_cases splitLines nl xs with
  | case1 => exact List.cons_ne_nil _ _
  | case2 rest => exact List.cons_ne_nil _ _
  | case3 c rest apart => exact prepend_ne_nil

/-- Elements that are no separators stay in front of the first line. -/
theorem splitLines_line (plain : ∀ c ∈ line, c ≠ nl) :
    splitLines nl (line ++ rest) = prepend line (splitLines nl rest) := by
  induction line with
  | nil =>
      cases pieces : splitLines nl rest with
      | nil => exact absurd pieces splitLines_ne_nil
      | cons piece others => simp [prepend, pieces]
  | cons c line ih =>
      rw [List.cons_append, splitLines, if_neg (plain c List.mem_cons_self),
        ih fun d member => plain d (List.mem_cons_of_mem c member), prepend_prepend]
      rfl

theorem splitLines_newline : splitLines nl (nl :: rest) = [] :: splitLines nl rest := by
  rw [splitLines, if_pos rfl]

theorem splitBlocks_ne_nil : splitBlocks nl xs ≠ [] := by
  fun_cases splitBlocks nl xs with
  | case1 => exact List.cons_ne_nil _ _
  | case2 c => exact List.cons_ne_nil _ _
  | case3 c d rest both => exact List.cons_ne_nil _ _
  | case4 c d rest apart => exact prepend_ne_nil

theorem splitBlocks_blank : splitBlocks nl (nl :: nl :: rest) = [] :: splitBlocks nl rest := by
  rw [splitBlocks, if_pos ⟨rfl, rfl⟩]

theorem splitBlocks_cons (apart : ¬(c = nl ∧ rest.head? = some nl)) :
    splitBlocks nl (c :: rest) = prepend [c] (splitBlocks nl rest) := by
  cases rest with
  | nil => rfl
  | cons d rest =>
      rw [splitBlocks, if_neg]
      exact fun both => apart ⟨both.1, congrArg some both.2⟩

/-- Elements that are no separators stay in front of the first block. -/
theorem splitBlocks_line (plain : ∀ c ∈ line, c ≠ nl) :
    splitBlocks nl (line ++ rest) = prepend line (splitBlocks nl rest) := by
  induction line with
  | nil =>
      cases pieces : splitBlocks nl rest with
      | nil => exact absurd pieces splitBlocks_ne_nil
      | cons piece others => simp [prepend, pieces]
  | cons c line ih =>
      rw [List.cons_append, splitBlocks_cons fun both => plain c List.mem_cons_self both.1,
        ih fun d member => plain d (List.mem_cons_of_mem c member), prepend_prepend]
      rfl

/-- A text that is one block is that block. -/
theorem splitBlocks_single (single : splitBlocks nl xs = [line]) : line = xs := by
  induction xs generalizing line with
  | nil => exact (List.singleton_inj.mp single).symm
  | cons c rest ih =>
      by_cases both : c = nl ∧ rest.head? = some nl
      · obtain ⟨rfl, head⟩ := both
        obtain ⟨others, rfl⟩ := List.head?_eq_some_iff.mp head
        rw [splitBlocks_blank] at single
        exact absurd (List.cons.inj single).2 splitBlocks_ne_nil
      · rw [splitBlocks_cons both] at single
        cases pieces : splitBlocks nl rest with
        | nil => exact absurd pieces splitBlocks_ne_nil
        | cons piece others =>
            rw [pieces] at single
            obtain ⟨rfl, rfl⟩ := List.cons.inj single
            rw [ih pieces]
            rfl

/-- What follows a text is split behind the last of its blocks. -/
theorem splitBlocks_append :
    splitBlocks nl (xs ++ ys) =
      (splitBlocks nl xs).dropLast ++ splitBlocks nl ((splitBlocks nl xs).getLastD [] ++ ys) := by
  fun_induction splitBlocks nl xs with
  | case1 => rfl
  | case2 c => rfl
  | case3 c d rest both ih =>
      obtain ⟨rfl, rfl⟩ := both
      rw [List.cons_append, List.cons_append, splitBlocks_blank, ih, List.dropLast_cons_of_ne_nil
        splitBlocks_ne_nil, List.cons_append, List.getLastD_cons]
  | case4 c d rest apart ih =>
      have head : ¬(c = nl ∧ (d :: rest ++ ys).head? = some nl) :=
        fun both => apart ⟨both.1, Option.some.inj both.2⟩
      match pieces : splitBlocks nl (d :: rest) with
      | [] => exact absurd pieces splitBlocks_ne_nil
      | [piece] =>
          rw [splitBlocks_single pieces]
          rfl
      | piece :: next :: others =>
          rw [List.cons_append, splitBlocks_cons head, ih, pieces]
          simp [prepend]

/-- The last block of a text has no block in it. -/
theorem splitBlocks_last :
    splitBlocks nl ((splitBlocks nl xs).getLastD []) = [(splitBlocks nl xs).getLastD []] := by
  have again : splitBlocks nl xs =
      (splitBlocks nl xs).dropLast ++ splitBlocks nl ((splitBlocks nl xs).getLastD [] ++ []) := by
    conv_lhs => rw [← List.append_nil xs]
    exact splitBlocks_append
  have counted := congrArg List.length again
  rw [List.append_nil, List.length_append, List.length_dropLast] at counted
  have some_block : 0 < (splitBlocks nl xs).length := List.length_pos_of_ne_nil splitBlocks_ne_nil
  have one : (splitBlocks nl ((splitBlocks nl xs).getLastD [])).length = 1 := by omega
  obtain ⟨block, single⟩ := List.length_eq_one_iff.mp one
  rw [single, splitBlocks_single single]

omit [DecidableEq α] in
theorem getLastD_append {zs : List α} (some_last : ys ≠ []) (a : α) :
    (zs ++ ys).getLastD a = ys.getLastD a := by
  rw [List.getLastD_eq_getLast?, List.getLastD_eq_getLast?,
    List.getLast?_append_of_ne_nil _ some_last]

/-- The blocks that a chunk completes; the buffer keeps what follows the last of them. -/
def assemble (nl : α) (chunk : List α) : Emitter (List α) (List α) := fun buffer =>
  ((splitBlocks nl (buffer ++ chunk)).getLastD [], (splitBlocks nl (buffer ++ chunk)).dropLast)

/-- However a text arrives in chunks, its blocks are those of the whole text. -/
theorem each_assemble {chunks : List (List α)} {buffer : List α}
    (single : splitBlocks nl buffer = [buffer]) :
    each (assemble nl) chunks buffer =
      ((splitBlocks nl (buffer ++ chunks.flatten)).getLastD [],
        (splitBlocks nl (buffer ++ chunks.flatten)).dropLast) := by
  induction chunks generalizing buffer with
  | nil =>
      rw [List.flatten_nil, List.append_nil, single]
      rfl
  | cons chunk rest ih =>
      have cut : splitBlocks nl (buffer ++ chunk ++ rest.flatten) =
          (splitBlocks nl (buffer ++ chunk)).dropLast ++
            splitBlocks nl ((splitBlocks nl (buffer ++ chunk)).getLastD [] ++ rest.flatten) :=
              splitBlocks_append
      have later : splitBlocks nl ((splitBlocks nl (buffer ++ chunk)).getLastD [] ++ rest.flatten) ≠
        [] :=
        splitBlocks_ne_nil
      rw [each, andThen, assemble, ih splitBlocks_last, List.flatten_cons, ← List.append_assoc, cut,
        List.dropLast_append_of_ne_nil later, getLastD_append later]

end
end Streams
