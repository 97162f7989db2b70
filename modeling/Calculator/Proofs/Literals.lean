import Calculator.Token
import Calculator.Proofs.Numerals
import Calculator.Proofs.Scanning

namespace Calculator

namespace Numeral

open Scan (isNumeric)

theorem ne_point_of_isDigit {ds : List Char} (h : ∀ c ∈ ds, c.isDigit) : ∀ c ∈ ds, (c != '.') = true := by
  intro c hc
  rw [bne_iff_ne]
  rintro rfl
  exact absurd (h _ hc) (by decide)

theorem ofList?_of_isNumeric {cs : List Char} (h : ∀ c ∈ cs, isNumeric c) :
    ofList? cs = (decimal? cs).map (finite false) := by
  cases cs with
  | nil => decide
  | cons c cs => exact ofList?_of_head .none (h c List.mem_cons_self) cs

theorem count_point {ds : List Char} (h : ∀ c ∈ ds, c.isDigit) : ds.count '.' = 0 :=
  List.count_eq_zero.mpr fun hp => absurd (h _ hp) (by decide)

theorem digits_of_isNumeric {cs : List Char} (h : ∀ c ∈ cs, isNumeric c) (hp : cs.count '.' ≤ 1) :
    (∀ c ∈ cs, c.isDigit) ∨ ∃ whole fraction, cs = whole ++ '.' :: fraction ∧
      (∀ c ∈ whole, c.isDigit) ∧ ∀ c ∈ fraction, c.isDigit := by
  by_cases hm : '.' ∈ cs
  · obtain ⟨whole, fraction, rfl, hw⟩ := List.eq_append_cons_of_mem hm
    have hf : '.' ∉ fraction := by
      intro hf
      have hcount := List.one_le_count_iff.mpr hf
      rw [List.count_append, List.count_cons_self] at hp
      omega
    obtain ⟨hwhole, hfraction⟩ := List.forall_mem_append.mp h
    refine Or.inr ⟨whole, fraction, rfl, fun c hc => ?_, fun c hc => ?_⟩
    · exact isDigit_of_isNumeric (hwhole c hc) fun h => hw (h ▸ hc)
    · exact isDigit_of_isNumeric (hfraction c (List.mem_cons_of_mem _ hc)) fun h => hf (h ▸ hc)
  · exact Or.inl fun c hc => isDigit_of_isNumeric (h c hc) fun h => hm (h ▸ hc)

end Numeral

/-- A number as it is written in an expression: digits, at least one of them, and at most one point. -/
structure Literal where
  text : String
  numeric : ∀ c ∈ text.toList, Scan.isNumeric c
  digit : ∃ c ∈ text.toList, c.isDigit
  point : text.toList.count '.' ≤ 1

namespace Literal

open Numeral

def decimal (x : Literal) : Decimal :=
  ⟨natural (x.text.toList.filter Char.isDigit), -((x.text.toList.dropWhile (· != '.')).tail.length : Int)⟩

def value (x : Literal) : Float := (Numeral.finite false x.decimal).toFloat

theorem decimal?_text (x : Literal) : decimal? x.text.toList = some x.decimal := by
  obtain ⟨c, hc, hd⟩ := x.digit
  rw [decimal]
  rcases digits_of_isNumeric x.numeric x.point with h | ⟨whole, fraction, htext, hw, hf⟩
  · have hdrop : x.text.toList.dropWhile (· != '.') = [] := by
      rw [← List.append_nil x.text.toList, List.dropWhile_append_of_pos (ne_point_of_isDigit h)]
      rfl
    have hread := decimal?_whole h (List.ne_nil_of_mem hc) .absent
    rw [List.append_nil] at hread
    rw [hread, List.filter_eq_self.mpr h, hdrop]
    rfl
  · have hne : whole ++ fraction ≠ [] := by
      intro hnil
      obtain ⟨rfl, rfl⟩ := List.append_eq_nil_iff.mp hnil
      rw [htext] at hc
      cases List.mem_singleton.mp hc
      cases hd
    have hfilter : (whole ++ '.' :: fraction).filter Char.isDigit = whole ++ fraction := by
      rw [List.filter_append, List.filter_cons_of_neg (by decide), List.filter_eq_self.mpr hw,
        List.filter_eq_self.mpr hf]
    have hdrop : (whole ++ '.' :: fraction).dropWhile (· != '.') = '.' :: fraction := by
      rw [List.dropWhile_append_of_pos (ne_point_of_isDigit hw), List.dropWhile_cons_of_neg (by decide)]
    have hread := decimal?_point hw hf hne .absent
    rw [List.append_nil] at hread
    rw [htext, hread, hfilter, hdrop, zero_sub]
    rfl

theorem read (x : Literal) : (Operand.literal x.text).read = .ok x.value := by
  rw [Operand.read, Numeral.read?, ofList?_of_isNumeric x.numeric, x.decimal?_text]
  rfl

theorem lexical (x : Literal) : Lexical (.literal x.text) := by
  obtain ⟨c, hc, -⟩ := x.digit
  exact .literal (List.ne_nil_of_mem hc) x.numeric

end Literal

end Calculator
