/-! Line ends of source text. A carriage return, alone or before a line feed,
ends a line just as a line feed does, and reading makes all three the same. -/
namespace ModuleBundler.Text

/-- Writes every line end as one line feed. -/
def unifyLineEnds : List Char → List Char
  | [] => []
  | '\r' :: '\n' :: rest => '\n' :: unifyLineEnds rest
  | '\r' :: rest => '\n' :: unifyLineEnds rest
  | c :: rest => c :: unifyLineEnds rest

theorem not_mem_unifyLineEnds (text : List Char) : '\r' ∉ unifyLineEnds text := by
  fun_induction unifyLineEnds text <;> simp_all [eq_comm]

theorem unifyLineEnds_of_not_mem {text : List Char} (clean : '\r' ∉ text) :
    unifyLineEnds text = text := by
  fun_induction unifyLineEnds text <;> simp_all

end ModuleBundler.Text
