import Calculator.Proofs.Blanks

namespace Calculator

variable {ts : List Token} {t : Token} {s sep : String}

theorem Lexical.not_blank (h : Lexical t) : ∀ c ∈ t.display.toList, Text.isBlank c = false := by
  cases h with
  | literal _ hall =>
      intro c hc
      rw [Bool.eq_false_iff]
      intro hb
      have hn := hall c hc
      rw [Scan.isNumeric_of_isBlank hb] at hn
      cases hn
  | operator op => cases op <;> exact List.forall_mem_singleton.mpr rfl
  | opening | closing => exact List.forall_mem_singleton.mpr rfl

theorem spaced_join (ts : List Token) : Spaced ts (String.join (ts.map Token.display)).toList := by
  induction ts with
  | nil => exact .nil
  | cons t ts ih =>
      rw [List.map_cons, String.join_cons, String.toList_append]
      exact .token t ih

/-- In a text without blanks a literal reaches up to a token of another kind. -/
theorem Scan.Cut.separate {position : Nat} {cs : List Char} {xs : List Lexeme} (h : Cut position cs xs)
    (hb : ∀ c ∈ cs, Text.isBlank c = false) : Separate (xs.map Lexeme.token) := by
  induction h with
  | nil => exact List.IsChain.nil
  | blank hc _ _ =>
      rw [hb _ List.mem_cons_self] at hc
      cases hc
  | @token position stop t run cs xs ht hrun hstop hnext hcs ih =>
      have hrest : ∀ c ∈ cs, Text.isBlank c = false := fun c hc => hb c (List.mem_append_right _ hc)
      refine List.isChain_cons.mpr ⟨?_, ih hrest⟩
      rintro u hu x y rfl rfl
      cases ht with
      | @literal text _ _ =>
          have hstop := hnext text rfl
          cases hcs with
          | nil => cases hu
          | blank hc _ =>
              rw [hrest _ List.mem_cons_self] at hc
              cases hc
          | @token _ _ u run' _ _ hu' hrun' _ _ _ =>
              cases hu
              -- The next literal would go on with a digit or a point right behind the first one.
              cases hu' with
              | @literal text' hne hall =>
                  subst hrun'
                  obtain ⟨c, rest, hc⟩ := List.exists_cons_of_ne_nil hne
                  have hn := hall c (hc ▸ List.mem_cons_self)
                  rw [hstop c (by simp [Token.display, Operand.display, hc])] at hn
                  cases hn

theorem separate_of_tokenize (h : tokenize s = .ok ts) (hb : ∀ c ∈ s.toList, Text.isBlank c = false) :
    Separate ts := by
  obtain ⟨-, hcut⟩ := Scan.cut_ofListAt 0 s.toList (alphabet_of_tokenize h)
  obtain rfl := Except.ok.inj (h.symm.trans (hcut.outcome 0))
  exact hcut.separate hb

theorem tokenize_intercalate (h : ∀ t ∈ ts, Lexical t) (hne : sep ≠ "") (hb : ∀ c ∈ sep.toList, Text.isBlank c) :
    tokenize (sep.intercalate (ts.map Token.display)) = .ok ts := by
  induction ts with
  | nil => exact tokenize_of_spaced .nil h List.IsChain.nil
  | cons t ts ih =>
      obtain ⟨ht, hts⟩ := List.forall_mem_cons.mp h
      cases ts with
      | nil =>
          rw [List.map_singleton, String.intercalate_singleton]
          exact tokenize_display ht
      | cons u ts =>
          have hfirst : tokenize (t.display ++ sep) = .ok [t] :=
            (tokenize_append_blanks t.display hb).trans (tokenize_display ht)
          have hapart : Scan.Apart (t.display ++ sep).toList (sep.intercalate ((u :: ts).map Token.display)).toList := by
            refine .inl fun c hc => ?_
            rw [String.toList_append, List.getLast?_append_of_ne_nil _ (by simpa using hne)] at hc
            exact Scan.isNumeric_of_isBlank (hb c (List.mem_of_getLast? hc))
          rw [List.map_cons, List.map_cons, String.intercalate_cons_cons]
          exact tokenize_append hapart hfirst (ih hts)

/-- Tokens are read back from their texts with the same blanks between all of them. From the texts alone they are read
back just if no number stands next to another. -/
theorem tokenize_displayed (h : ∀ t ∈ ts, Lexical t) :
    (∀ sep : String, sep ≠ "" → (∀ c ∈ sep.toList, Text.isBlank c) →
      tokenize (sep.intercalate (ts.map Token.display)) = .ok ts) ∧
      (tokenize (String.join (ts.map Token.display)) = .ok ts ↔ Separate ts) := by
  refine ⟨fun sep hne hb => tokenize_intercalate h hne hb, fun hjoin => ?_, tokenize_of_spaced (spaced_join ts) h⟩
  apply separate_of_tokenize hjoin
  rw [String.toList_join, List.flatMap_map]
  intro c hc
  obtain ⟨t, ht, hc⟩ := List.mem_flatMap.mp hc
  exact (h t ht).not_blank c hc

theorem tokenize_displayed_points :
    tokenize ("\u2003".intercalate ["1.2.3", ".", "*", "("]) =
        .ok [.literal "1.2.3", .literal ".", .operator .multiply, .opening] ∧
      tokenize (String.join ["1.2.3", ".", "*", "("]) ≠
        .ok [.literal "1.2.3", .literal ".", .operator .multiply, .opening] ∧
      tokenize (String.join [".", "*", "(", "1.2.3"]) =
        .ok [.literal ".", .operator .multiply, .opening, .literal "1.2.3"] := by
  have hpoints : Lexical (.literal "1.2.3") := .literal (by decide) (List.all_eq_true.mp rfl)
  have hpoint : Lexical (.literal ".") := .literal (by decide) (List.all_eq_true.mp rfl)
  have hall : ∀ t ∈ [Token.literal "1.2.3", .literal ".", .operator .multiply, .opening], Lexical t := by
    simp [hpoints, hpoint, Lexical.operator, Lexical.opening]
  have hall' : ∀ t ∈ [Token.literal ".", .operator .multiply, .opening, .literal "1.2.3"], Lexical t := by
    simp [hpoints, hpoint, Lexical.operator, Lexical.opening]
  refine ⟨(tokenize_displayed hall).1 "\u2003" (by decide) (List.all_eq_true.mp rfl), ?_, ?_⟩
  · intro h
    have hseparate := (tokenize_displayed hall).2.mp h
    exact (List.isChain_cons.mp hseparate).1 _ rfl _ _ rfl rfl
  · exact (tokenize_displayed hall').2.mpr (by simp [Separate])

end Calculator
