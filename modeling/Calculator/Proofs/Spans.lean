import Calculator.Proofs.Log
import Calculator.Proofs.Scanning

namespace Calculator

def Alphabet (c : Char) : Prop := c.isDigit ∨ c ∈ ['.', '+', '-', '*', '/', '(', ')'] ∨ Text.isBlank c

instance (c : Char) : Decidable (Alphabet c) :=
  inferInstanceAs (Decidable (c.isDigit ∨ c ∈ ['.', '+', '-', '*', '/', '(', ')'] ∨ Text.isBlank c))

/-- The text leaves the alphabet at `c` for the first time. -/
def StraysAt (s before : String) (c : Char) (after : String) : Prop :=
  s = before ++ String.singleton c ++ after ∧ (∀ d ∈ before.toList, Alphabet d) ∧ ¬ Alphabet c

instance (s before : String) (c : Char) (after : String) : Decidable (StraysAt s before c after) :=
  let _ : Decidable (∀ d ∈ before.toList, Alphabet d) := List.decidableBAll Alphabet before.toList
  inferInstanceAs (Decidable (_ ∧ _ ∧ _))

theorem alphabet_or_stray (s : String) :
    (∀ c ∈ s.toList, Alphabet c) ∨ ∃ before c after, StraysAt s before c after := by
  cases hfind : s.toList.find? (¬ Alphabet ·) with
  | none => exact Or.inl fun c hc => by simpa using List.find?_eq_none.mp hfind c hc
  | some c =>
      obtain ⟨hc, before, after, hs, hbefore⟩ := List.find?_eq_some_iff_append.mp hfind
      refine Or.inr ⟨String.ofList before, c, String.ofList after, ?_, ?_, by simpa using hc⟩
      · rw [← String.toList_inj, hs]
        simp
      · simpa using hbefore

/-- The tokens stand in the text in order and apart from each other, each one where it is spelled. A literal takes
in all the digits and points that stand together. What stands outside of the tokens is blank. -/
structure Tiling (s : String) (xs : List Lexeme) : Prop where
  lexical : ∀ x ∈ xs, Lexical x.token
  ordered : xs.Pairwise fun x y => x.stop ≤ y.start
  spelled : ∀ x ∈ xs, x.start < x.stop ∧ ∃ before after, s = before ++ x.token.display ++ after ∧
    x.start = before.utf8ByteSize ∧ x.stop = (before ++ x.token.display).utf8ByteSize ∧
    ∀ text, x.token = .literal text →
      (∀ c ∈ before.toList.getLast?, Scan.isNumeric c = false) ∧ ∀ c ∈ after.toList.head?, Scan.isNumeric c = false
  blank : ∀ before c after, s = before ++ String.singleton c ++ after →
    Text.isBlank c ∨ ∃ x ∈ xs, x.start ≤ before.utf8ByteSize ∧ (before.push c).utf8ByteSize ≤ x.stop

theorem Lexical.numeric {text : String} (h : Lexical (.literal text)) :
    text.toList ≠ [] ∧ ∀ c ∈ text.toList, Scan.isNumeric c := by
  cases h with
  | literal hne hall => exact ⟨hne, hall⟩

theorem Lexical.display_ne_nil {t : Token} (h : Lexical t) : t.display.toList ≠ [] := by
  cases h with
  | literal hne hall => exact hne
  | operator op => cases op <;> decide
  | opening | closing => decide

namespace Scan

theorem utf8Length_cons (c : Char) (cs : List Char) : utf8Length (c :: cs) = c.utf8Size + utf8Length cs := rfl

theorem utf8Length_append (cs ds : List Char) : utf8Length (cs ++ ds) = utf8Length cs + utf8Length ds := by
  induction cs with
  | nil => exact (Nat.zero_add _).symm
  | cons c cs ih =>
      change c.utf8Size + utf8Length (cs ++ ds) = c.utf8Size + utf8Length cs + utf8Length ds
      rw [ih, Nat.add_assoc]

theorem utf8Length_eq (cs : List Char) : utf8Length cs = (String.ofList cs).utf8ByteSize := by
  induction cs with
  | nil => rfl
  | cons c cs ih =>
      change c.utf8Size + utf8Length cs = _
      rw [ih, String.ofList_cons, String.utf8ByteSize_append, String.utf8ByteSize_singleton]

theorem utf8Length_pos {cs : List Char} (h : cs ≠ []) : 0 < utf8Length cs := by
  cases cs with
  | nil => exact absurd rfl h
  | cons c cs => exact Nat.add_pos_left c.utf8Size_pos _

theorem symbol?_eq_some {c : Char} {t : Token} (h : symbol? c = some t) :
    Lexical t ∧ t.display.toList = [c] ∧ ∀ text, t ≠ .literal text := by
  unfold symbol? at h
  split at h
  · cases h
    exact ⟨.opening, rfl, nofun⟩
  · cases h
    exact ⟨.closing, rfl, nofun⟩
  · obtain ⟨op, hop, rfl⟩ := Option.map_eq_some_iff.mp h
    cases Operator.symbol_of_ofSymbol? hop
    exact ⟨.operator op, by cases op <;> rfl, nofun⟩

theorem alphabet_iff {c : Char} : Alphabet c ↔ isNumeric c ∨ (∃ t, symbol? c = some t) ∨ Text.isBlank c := by
  constructor
  · rintro (h | h | h)
    · exact Or.inl (by rw [isNumeric, h]; rfl)
    · simp only [List.mem_cons, List.not_mem_nil, or_false] at h
      rcases h with rfl | rfl | rfl | rfl | rfl | rfl | rfl
      · exact Or.inl rfl
      all_goals exact Or.inr (Or.inl ⟨_, rfl⟩)
    · exact Or.inr (Or.inr h)
  · rintro (h | ⟨t, h⟩ | h)
    · rw [isNumeric, Bool.or_eq_true, beq_iff_eq] at h
      exact h.imp_right fun h => Or.inl (by simp [h])
    · refine Or.inr (Or.inl ?_)
      unfold symbol? at h
      split at h
      · simp
      · simp
      · obtain ⟨op, hop, -⟩ := Option.map_eq_some_iff.mp h
        cases Operator.symbol_of_ofSymbol? hop
        cases op <;> decide
    · exact Or.inr (Or.inr h)

theorem not_alphabet_iff {c : Char} :
    ¬ Alphabet c ↔ isNumeric c = false ∧ symbol? c = none ∧ Text.isBlank c = false := by
  rw [alphabet_iff, not_or, not_or, Bool.not_eq_true, Bool.not_eq_true, Option.eq_none_iff_forall_ne_some, not_exists]

theorem span_append_cons {p : Char → Bool} {c : Char} (hc : p c = false) (cs after : List Char) :
    (cs ++ c :: after).takeWhile p = cs.takeWhile p ∧
      (cs ++ c :: after).dropWhile p = cs.dropWhile p ++ c :: after := by
  induction cs with
  | nil => simp [hc]
  | cons d cs ih =>
      cases hd : p d with
      | false => simp [hd]
      | true => simp [hd, ih]

/-- No literal goes across the seam of two texts. -/
def Apart (cs ds : List Char) : Prop :=
  (∀ c ∈ cs.getLast?, isNumeric c = false) ∨ ∀ d ∈ ds.head?, isNumeric d = false

/-- A text that starts at byte `position`, cut into tokens and blanks. No literal is followed by what would belong
to it. -/
inductive Cut : (position : Nat) → List Char → List Lexeme → Prop
  | nil {position : Nat} : Cut position [] []
  | blank {position : Nat} {c : Char} {cs : List Char} {xs : List Lexeme} :
      Text.isBlank c → Cut (position + c.utf8Size) cs xs → Cut position (c :: cs) xs
  | token {position stop : Nat} {t : Token} {run cs : List Char} {xs : List Lexeme} :
      Lexical t → t.display.toList = run → stop = position + utf8Length run →
      (∀ text, t = .literal text → ∀ c ∈ cs.head?, isNumeric c = false) →
      Cut stop cs xs → Cut position (run ++ cs) (⟨t, position, stop⟩ :: xs)

theorem cut_ofListAt (position : Nat) (cs : List Char) (h : ∀ c ∈ cs, Alphabet c) :
    (ofListAt position cs).stray = none ∧ Cut position cs (ofListAt position cs).lexemes := by
  fun_induction ofListAt position cs with
  | case1 position => exact ⟨rfl, .nil⟩
  | case2 position c cs hn run stop ih =>
      obtain ⟨hstray, hcut⟩ := ih fun d hd =>
        h d (List.mem_cons_of_mem c ((List.dropWhile_suffix isNumeric).subset hd))
      have hrun : ∀ d ∈ run, isNumeric d := by
        refine List.forall_mem_cons.mpr ⟨hn, fun d hd => ?_⟩
        exact List.all_eq_true.mp List.all_takeWhile d hd
      have hl : Lexical (.literal (String.ofList run)) := .literal (by simp [run]) (by simpa using hrun)
      have hcs : run ++ cs.dropWhile isNumeric = c :: cs := by simp [run]
      rw [← hcs]
      refine ⟨hstray, .token hl (by simp [Token.display, Operand.display]) rfl (fun _ _ d hd => ?_) hcut⟩
      have hhead := List.head?_dropWhile_not isNumeric cs
      rw [Option.mem_def.mp hd] at hhead
      exact hhead
  | case3 position c cs hn next t hs ih =>
      obtain ⟨hstray, hcut⟩ := ih (List.forall_mem_cons.mp h).2
      obtain ⟨hl, hdisplay, hne⟩ := symbol?_eq_some hs
      have htoken : Cut position ([c] ++ cs) (⟨t, position, next⟩ :: (ofListAt next cs).lexemes) :=
        .token hl hdisplay rfl (fun text ht => absurd ht (hne text)) hcut
      exact ⟨hstray, htoken⟩
  | case4 position c cs hn next hs hb ih =>
      obtain ⟨hstray, hcut⟩ := ih (List.forall_mem_cons.mp h).2
      exact ⟨hstray, .blank hb hcut⟩
  | case5 position c cs hn hs hb =>
      have hc : ¬ Alphabet c := not_alphabet_iff.mpr ⟨by simpa using hn, hs, by simpa using hb⟩
      exact absurd (h c List.mem_cons_self) hc

/-- A character that belongs to no token ends the scan. The text before it is scanned as if it stood alone. -/
theorem ofListAt_append_stray (position : Nat) (cs : List Char) {c : Char} (hc : ¬ Alphabet c) (after : List Char)
    (h : ∀ d ∈ cs, Alphabet d) :
    ofListAt position (cs ++ c :: after) = ⟨(ofListAt position cs).lexemes, some (c, position + utf8Length cs)⟩ := by
  obtain ⟨hnumeric, hsymbol, hblank⟩ := not_alphabet_iff.mp hc
  fun_induction ofListAt position cs with
  | case1 position => exact ofListAt_stray position hnumeric hsymbol hblank after
  | case2 position d cs hn run stop ih =>
      obtain ⟨htake, hdrop⟩ := span_append_cons hnumeric cs after
      have hlength : utf8Length (d :: cs) = utf8Length run + utf8Length (cs.dropWhile isNumeric) := by
        rw [← utf8Length_append]
        simp [run]
      have hrest := ih fun e he => h e (List.mem_cons_of_mem d ((List.dropWhile_suffix isNumeric).subset he))
      rw [List.cons_append, ofListAt_numeric position hn, htake, hdrop, hlength, ← Nat.add_assoc]
      exact congrArg (cons _) hrest
  | case3 position d cs hn next t hs ih =>
      have hrest := ih (List.forall_mem_cons.mp h).2
      rw [List.cons_append, ofListAt_symbol position (by simpa using hn) hs]
      refine (congrArg (cons _) hrest).trans ?_
      rw [utf8Length_cons, ← Nat.add_assoc]
      rfl
  | case4 position d cs hn next hs hb ih =>
      have hrest := ih (List.forall_mem_cons.mp h).2
      rw [List.cons_append, ofListAt_blank position (by simpa using hn) hs hb]
      refine hrest.trans ?_
      rw [utf8Length_cons, ← Nat.add_assoc]
  | case5 position d cs hn hs hb =>
      have hd : ¬ Alphabet d := not_alphabet_iff.mpr ⟨by simpa using hn, hs, by simpa using hb⟩
      exact absurd (h d List.mem_cons_self) hd

namespace Cut

variable {position : Nat} {cs : List Char} {xs : List Lexeme}

theorem lexical (h : Cut position cs xs) : ∀ x ∈ xs, Lexical x.token := by
  induction h with
  | nil => exact nofun
  | blank _ _ ih => exact ih
  | token ht _ _ _ _ ih => exact List.forall_mem_cons.mpr ⟨ht, ih⟩

theorem le_start (h : Cut position cs xs) : ∀ x ∈ xs, position ≤ x.start := by
  induction h with
  | nil => exact nofun
  | blank _ _ ih => exact fun x hx => Nat.le_of_add_right_le (ih x hx)
  | token _ _ hstop _ _ ih =>
      refine List.forall_mem_cons.mpr ⟨Nat.le_refl _, fun x hx => ?_⟩
      have hle := ih x hx
      omega

theorem ordered (h : Cut position cs xs) : xs.Pairwise fun x y => x.stop ≤ y.start := by
  induction h with
  | nil => exact .nil
  | blank _ _ ih => exact ih
  | token _ _ _ _ hcs ih => exact .cons hcs.le_start ih

theorem outcome (h : Cut position cs xs) (start : Nat) : (ofListAt start cs).outcome = .ok (xs.map Lexeme.token) := by
  induction h generalizing start with
  | nil =>
      rw [ofListAt_nil]
      rfl
  | blank hb _ ih =>
      rw [ofListAt_blank start (isNumeric_of_isBlank hb) (symbol?_of_isBlank hb) hb]
      exact ih _
  | @token position stop t run cs xs ht hrun hstop hnext hcs ih =>
      subst hrun
      have hhead (x : Operand) (hx : t = .operand x) : ∀ c ∈ cs.head?, isNumeric c = false := by
        cases ht with
        | literal => exact hnext _ rfl
        | operator | opening | closing => cases hx
      obtain ⟨next, hscan⟩ := ofListAt_token ht hhead start
      rw [hscan, outcome_cons, ih next]
      rfl

theorem append {ds : List Char} {ys : List Lexeme} (h : Cut position cs xs)
    (h' : Cut (position + utf8Length cs) ds ys) (hd : Apart cs ds) : Cut position (cs ++ ds) (xs ++ ys) := by
  induction h with
  | nil => exact h'
  | @blank position c cs xs hb _ ih =>
      rw [utf8Length_cons, ← Nat.add_assoc] at h'
      refine .blank hb (ih h' (hd.imp_left fun hlast d hd => ?_))
      have hmem : d ∈ ([c] ++ cs).getLast? := List.mem_getLast?_append_of_mem_getLast? hd
      exact hlast d hmem
  | @token position stop t run cs xs ht hrun hstop hnext hcs ih =>
      rw [utf8Length_append, ← Nat.add_assoc, ← hstop] at h'
      rw [List.append_assoc]
      refine .token ht hrun hstop (fun text htext => ?_) (ih h' (hd.imp_left fun hlast d hd => ?_))
      · cases cs with
        | cons c cs => exact hnext text htext
        | nil =>
            -- The literal would be the end of the first text.
            rw [List.append_nil] at hd
            refine hd.resolve_left fun hlast => ?_
            subst hrun htext
            obtain ⟨hne, hall⟩ := ht.numeric
            have hnumeric := hall _ (List.getLast_mem hne)
            rw [hlast _ (List.getLast?_eq_some_getLast hne)] at hnumeric
            cases hnumeric
      · exact hlast d (List.mem_getLast?_append_of_mem_getLast? hd)

end Cut

def SpelledAt (position : Nat) (cs : List Char) (x : Lexeme) : Prop :=
  ∃ before after, cs = before ++ (x.token.display.toList ++ after) ∧ x.start = position + utf8Length before ∧
    x.stop = x.start + utf8Length x.token.display.toList ∧
    ∀ text, x.token = .literal text →
      (∀ c ∈ before.getLast?, isNumeric c = false) ∧ ∀ c ∈ after.head?, isNumeric c = false

/-- The token takes in the character that follows `before`. -/
def TakesIn (position : Nat) (before : List Char) (c : Char) (x : Lexeme) : Prop :=
  x.start ≤ position + utf8Length before ∧ position + utf8Length (before ++ [c]) ≤ x.stop

theorem TakesIn.shift {position : Nat} {run before : List Char} {c : Char} {x : Lexeme}
    (h : TakesIn (position + utf8Length run) before c x) : TakesIn position (run ++ before) c x := by
  rw [TakesIn, List.append_assoc, utf8Length_append, utf8Length_append, ← Nat.add_assoc, ← Nat.add_assoc]
  exact h

theorem SpelledAt.shift {position : Nat} {run cs : List Char} {x : Lexeme} (hx : Lexical x.token)
    (h : SpelledAt (position + utf8Length run) cs x)
    (hrun : (∀ c ∈ run.getLast?, isNumeric c = false) ∨ ∀ c ∈ cs.head?, isNumeric c = false) :
    SpelledAt position (run ++ cs) x := by
  obtain ⟨before, after, rfl, hstart, hstop, hmax⟩ := h
  refine ⟨run ++ before, after, (List.append_assoc ..).symm, ?_, hstop, fun text htext => ⟨?_, (hmax text htext).2⟩⟩
  · rw [hstart, utf8Length_append, Nat.add_assoc]
  · obtain ⟨hbefore, -⟩ := hmax text htext
    cases before with
    | cons d before => rwa [List.getLast?_append_of_ne_nil run (List.cons_ne_nil d before)]
    | nil =>
        rw [List.append_nil]
        refine hrun.resolve_right fun hhead => ?_
        -- The literal itself would follow the run.
        rw [htext] at hx
        obtain ⟨hne, hall⟩ := hx.numeric
        obtain ⟨d, ds, hds⟩ := List.exists_cons_of_ne_nil hne
        have hd := hhead d (by rw [htext]; simp [Token.display, Operand.display, hds])
        rw [hall d (by simp [hds])] at hd
        cases hd

namespace Cut

variable {position : Nat} {cs : List Char} {xs : List Lexeme}

theorem spelledAt (h : Cut position cs xs) : ∀ x ∈ xs, SpelledAt position cs x := by
  induction h with
  | nil => exact nofun
  | @blank position c cs xs hb hcs ih =>
      intro x hx
      have hlast : ∀ d ∈ [c].getLast?, isNumeric d = false := by
        intro d hd
        cases hd
        exact isNumeric_of_isBlank hb
      exact @SpelledAt.shift position [c] cs x (hcs.lexical x hx) (ih x hx) (Or.inl hlast)
  | @token position stop t run cs xs ht hrun hstop hnext hcs ih =>
      subst hrun hstop
      refine List.forall_mem_cons.mpr ⟨⟨[], cs, rfl, rfl, rfl, fun text h => ⟨nofun, hnext text h⟩⟩, fun x hx => ?_⟩
      refine SpelledAt.shift (hcs.lexical x hx) (ih x hx) ?_
      cases ht with
      | literal => exact Or.inr (hnext _ rfl)
      | operator op => exact Or.inl fun c hc => by cases op <;> cases hc <;> rfl
      | opening | closing => exact Or.inl fun c hc => by cases hc; rfl

theorem outside (h : Cut position cs xs) {before after : List Char} {c : Char} (hc : cs = before ++ c :: after) :
    Text.isBlank c ∨ ∃ x ∈ xs, TakesIn position before c x := by
  induction h generalizing before with
  | nil => simp at hc
  | @blank position d cs xs hb hcs ih =>
      cases before with
      | nil =>
          cases hc
          exact Or.inl hb
      | cons d' before =>
          obtain ⟨rfl, hc'⟩ := List.cons.inj hc
          exact (ih hc').imp_right fun ⟨x, hx, htakes⟩ => ⟨x, hx, @TakesIn.shift position [d] _ _ _ htakes⟩
  | @token position stop t run cs xs ht hrun hstop hnext hcs ih =>
      subst hstop
      have hbehind : ∀ rest, cs = rest ++ c :: after → before = run ++ rest →
          Text.isBlank c ∨ ∃ x ∈ ⟨t, position, position + utf8Length run⟩ :: xs, TakesIn position before c x := by
        rintro rest hrest rfl
        exact (ih hrest).imp_right fun ⟨x, hx, htakes⟩ => ⟨x, List.mem_cons_of_mem _ hx, htakes.shift⟩
      rcases List.append_eq_append_iff.mp hc with ⟨rest, hbefore, hrest⟩ | ⟨rest, hinside, hrest⟩
      · exact hbehind rest hrest hbefore
      · cases rest with
        | nil => exact hbehind [] hrest.symm (by rw [hinside, List.append_nil, List.append_nil])
        | cons d rest =>
            obtain ⟨rfl, -⟩ := List.cons.inj hrest
            refine Or.inr ⟨_, List.mem_cons_self, Nat.le_add_right _ _, Nat.add_le_add_left ?_ _⟩
            rw [hinside, List.append_cons before c rest, utf8Length_append (before ++ [c])]
            exact Nat.le_add_right _ _

end Cut

theorem tiling_of_cut {s : String} {xs : List Lexeme} (h : Cut 0 s.toList xs) : Tiling s xs where
  lexical := h.lexical
  ordered := h.ordered
  spelled x hx := by
    obtain ⟨before, after, hs, hstart, hstop, hmax⟩ := h.spelledAt x hx
    have hlength : 0 < utf8Length x.token.display.toList := utf8Length_pos (h.lexical x hx).display_ne_nil
    rw [Nat.zero_add] at hstart
    refine ⟨by omega, String.ofList before, String.ofList after, ?_, ?_, ?_, fun text htext => ?_⟩
    · rw [← String.toList_inj, hs]
      simp
    · rw [hstart, utf8Length_eq]
    · rw [hstop, hstart, ← utf8Length_append, utf8Length_eq, String.ofList_append, String.ofList_toList]
    · rw [String.toList_ofList, String.toList_ofList]
      exact hmax text htext
  blank before c after hs := by
    have hlist : s.toList = before.toList ++ c :: after.toList := by
      rw [hs]
      simp
    refine (h.outside hlist).imp_right fun ⟨x, hx, hstart, hstop⟩ => ⟨x, hx, ?_, ?_⟩
    · rwa [Nat.zero_add, utf8Length_eq, String.ofList_toList] at hstart
    · rwa [Nat.zero_add, utf8Length_eq, ← String.toList_push, String.ofList_toList] at hstop

theorem ofString_stray {s before after : String} {c : Char} (h : StraysAt s before c after) :
    ofString s = ⟨(ofString before).lexemes, some (c, before.utf8ByteSize)⟩ := by
  obtain ⟨rfl, hbefore, hc⟩ := h
  have hlist : (before ++ String.singleton c ++ after).toList = before.toList ++ c :: after.toList := by simp
  rw [ofString, hlist, ofListAt_append_stray 0 before.toList hc after.toList hbefore, Nat.zero_add, utf8Length_eq,
    String.ofList_toList]
  rfl

theorem ofString_alphabet {s : String} (h : ∀ c ∈ s.toList, Alphabet c) :
    (ofString s).stray = none ∧ Tiling s (ofString s).lexemes := by
  obtain ⟨hstray, hcut⟩ := cut_ofListAt 0 s.toList h
  exact ⟨hstray, tiling_of_cut hcut⟩

end Scan

def traced (s : String) : List Lexeme := (evaluateTraced s).events.filterMap Event.lexeme?

theorem traced_eq (s : String) : traced s = (Scan.ofString s).lexemes := lexemes_evaluateTraced s

theorem tokenize_of_stray {s before after : String} {c : Char} (h : StraysAt s before c after) :
    tokenize s = .error (.invalidCharacter c before.utf8ByteSize) := by
  rw [tokenize, Scan.outcome, Scan.ofString_stray h]

theorem tokenize_of_alphabet {s : String} (h : ∀ c ∈ s.toList, Alphabet c) :
    tokenize s = .ok ((traced s).map Lexeme.token) ∧ Tiling s (traced s) := by
  obtain ⟨hstray, htiling⟩ := Scan.ofString_alphabet h
  rw [traced_eq, tokenize, Scan.outcome, hstray]
  exact ⟨rfl, htiling⟩

/-- A text is refused for its first character outside of the alphabet, and the tokens before it are logged as if
the text ended there. Any other text consists of the tokens that are logged and of blanks. -/
theorem tokenize_by_alphabet (s : String) :
    (∀ c p, tokenize s = .error (.invalidCharacter c p) ↔
        ∃ before after, StraysAt s before c after ∧ p = before.utf8ByteSize) ∧
      (∀ before c after, StraysAt s before c after →
        traced s = traced before ∧ tokenize before = .ok ((traced before).map Lexeme.token)) ∧
      ((∀ c p, tokenize s ≠ .error (.invalidCharacter c p)) →
        tokenize s = .ok ((traced s).map Lexeme.token) ∧ Tiling s (traced s)) := by
  refine ⟨fun c p => ⟨fun h => ?_, ?_⟩, fun before c after h => ⟨?_, (tokenize_of_alphabet h.2.1).1⟩, fun h => ?_⟩
  · rcases alphabet_or_stray s with ha | ⟨before, d, after, hd⟩
    · rw [(tokenize_of_alphabet ha).1] at h
      cases h
    · rw [tokenize_of_stray hd] at h
      cases h
      exact ⟨before, after, hd, rfl⟩
  · rintro ⟨before, after, h, rfl⟩
    exact tokenize_of_stray h
  · rw [traced_eq, traced_eq, Scan.ofString_stray h]
  · rcases alphabet_or_stray s with ha | ⟨before, d, after, hd⟩
    · exact tokenize_of_alphabet ha
    · exact absurd (tokenize_of_stray hd) (h _ _)

theorem tokenize_wide_blank :
    tokenize "1\u2003+é" = .error (.invalidCharacter 'é' 5) ∧ traced "1\u2003+é" = traced "1\u2003+" ∧
      Tiling "1\u2003+" (traced "1\u2003+") := by
  have hstray : StraysAt "1\u2003+é" "1\u2003+" 'é' "" := by decide
  have h := tokenize_by_alphabet "1\u2003+é"
  refine ⟨(h.1 _ _).mpr ⟨_, _, hstray, by decide⟩, (h.2.1 _ _ _ hstray).1, ?_⟩
  refine ((tokenize_by_alphabet "1\u2003+").2.2 fun c p => ?_).2
  rw [(h.2.1 _ _ _ hstray).2]
  exact nofun

end Calculator
