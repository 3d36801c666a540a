import DerivedColumns.Formula.Grammar
import DerivedColumns.Proofs.Formula.Reading
import DerivedColumns.Proofs.Number.Plain

set_option autoImplicit false

namespace DerivedColumns.Formula

open Number (Apart)

def Blank (g : List Char) : Prop := ∀ c ∈ g, isSpace c = true

theorem blank_nil : Blank [] := fun _ h => absurd h List.not_mem_nil

theorem blank_space : Blank [' '] := List.forall_mem_singleton.2 rfl

theorem Blank.cons {g : List Char} {c : Char} (hc : isSpace c = true) (h : Blank g) : Blank (c :: g) :=
  List.forall_mem_cons.2 ⟨hc, h⟩

theorem blank_indentation (depth : Nat) : Blank (indentation depth) := by
  intro c hc
  rw [(List.mem_replicate.1 hc).2]
  rfl

theorem skipLayout_blank {g : List Char} (blank : Blank g) (s : List Char) :
    skipLayout (g ++ s) = skipLayout s := by
  induction g with
  | nil => rfl
  | cons c g ih =>
    obtain ⟨hc, hg⟩ := List.forall_mem_cons.1 blank
    rw [List.cons_append, skipLayout.eq_def]
    dsimp only
    rw [if_pos hc, ih hg]

theorem skipLayout_plain {c : Char} {s : List Char} (space : isSpace c = false)
    (comment : ∀ more, c = '/' → s = '/' :: more → False) : skipLayout (c :: s) = c :: s := by
  rw [skipLayout.eq_def]
  dsimp only
  rw [if_neg (by rw [space]; decide)]
  split
  · rename_i more
    exact (comment more rfl rfl).elim
  · rfl

theorem skipLayout_cons {c : Char} (space : isSpace c = false) (slash : c ≠ '/') (s : List Char) :
    skipLayout (c :: s) = c :: s :=
  skipLayout_plain space fun _ same _ => slash same

theorem skip_to {g : List Char} {c : Char} (blank : Blank g) (space : isSpace c = false) (slash : c ≠ '/')
    (s : List Char) : skip (g ++ c :: s) = .ok () (c :: s) := by
  rw [skip, skipLayout_blank blank, skipLayout_cons space slash]

theorem skipLayout_slash (s : List Char) : skipLayout ('/' :: ' ' :: s) = '/' :: ' ' :: s :=
  skipLayout_plain rfl fun _ _ same => by cases same

def Starts (s : List Char) : Prop := ∃ c more, s = c :: more ∧ isSpace c = false ∧ c ≠ '/' ∧ c ≠ '='

theorem Starts.skip {s g : List Char} (h : Starts s) (blank : Blank g) (rest : List Char) :
    skipLayout (g ++ (s ++ rest)) = s ++ rest := by
  obtain ⟨c, more, rfl, space, slash, -⟩ := h
  rw [skipLayout_blank blank]
  exact skipLayout_cons space slash _

theorem Starts.append {s : List Char} (h : Starts s) (t : List Char) : Starts (s ++ t) := by
  obtain ⟨c, more, rfl, rest⟩ := h
  exact ⟨c, more ++ t, rfl, rest⟩

theorem takeWhile_isWordPart {s rest : List Char} (part : ∀ c ∈ s, isWordPart c = true)
    (apart : Apart rest) : (s ++ rest).takeWhile isWordPart = s ∧ (s ++ rest).dropWhile isWordPart = rest := by
  have stopped : rest.takeWhile isWordPart = [] ∧ rest.dropWhile isWordPart = rest := by
    cases rest with
    | nil => exact ⟨rfl, rfl⟩
    | cons c rest =>
      have no := (apart c rfl).1
      exact ⟨by rw [List.takeWhile_cons, no]; rfl, by rw [List.dropWhile_cons, no]; rfl⟩
  rw [List.takeWhile_append_of_pos part, List.dropWhile_append_of_pos part, stopped.1, stopped.2]
  exact ⟨List.append_nil s, rfl⟩

theorem word_append {name rest : List Char} (isName : isWord name = true) (apart : Apart rest) :
    word (name ++ rest) = .ok (String.ofList name) rest := by
  cases name with
  | nil => cases isName
  | cons c name =>
    obtain ⟨start, part⟩ := Bool.and_eq_true_iff.1 isName
    obtain ⟨taken, left⟩ := takeWhile_isWordPart (List.all_eq_true.1 part) apart
    rw [List.cons_append, word, if_pos start, taken, left]

theorem soft_word {c : Char} (h : isWordStart c = false) (s : List Char) : (word (c :: s)).Soft := by
  rw [word, if_neg (by rw [h]; decide)]
  exact ⟨_, rfl⟩

theorem isWord_of_word {s rest : List Char} {name : String} (h : word s = .ok name rest) :
    isWord name.toList = true := by
  unfold word at h
  split at h
  · rename_i c s
    split at h
    · rename_i start
      cases h
      rw [String.toList_ofList, isWord, start, Bool.true_and, List.all_eq_true]
      exact fun d hd => List.all_eq_true.1 (List.all_takeWhile ..) d hd
    · cases h
  · cases h

theorem isWordStart_of_isWord {name : List Char} (h : isWord name = true) :
    ∃ c more, name = c :: more ∧ isWordStart c = true := by
  cases name with
  | nil => cases h
  | cons c more => exact ⟨c, more, rfl, (Bool.and_eq_true_iff.1 h).1⟩

theorem isDigit_of_isWordStart {c : Char} (h : isWordStart c = true) : c.isDigit = false := by
  rw [isWordStart, Bool.or_eq_true, Bool.or_eq_true, decide_eq_true_eq, decide_eq_true_eq] at h
  rcases h with (letter | rfl) | rfl
  · have below : '9'.val.toNat < 'A'.val.toNat ∧ '9'.val.toNat < 'a'.val.toNat := by decide
    simp only [Char.isAlpha, Char.isUpper, Char.isLower, Bool.or_eq_true, Bool.and_eq_true,
      decide_eq_true_eq, ge_iff_le, UInt32.le_iff_toNat_le] at letter
    simp only [Char.isDigit, Bool.and_eq_false_iff, decide_eq_false_iff_not, ge_iff_le,
      UInt32.le_iff_toNat_le]
    omega
  · rfl
  · rfl

theorem content_escape (s rest : List Char) :
    content '"' (s.flatMap escape ++ '"' :: rest) = .ok s ('"' :: rest) := by
  induction s with
  | nil =>
    rw [List.flatMap_nil, List.nil_append, content.eq_def]
    dsimp only
    rw [if_pos rfl]
  | cons c s ih =>
    have escaped : ∀ e, unescape e = c →
        content '"' ('\\' :: e :: (s.flatMap escape ++ '"' :: rest)) = .ok (c :: s) ('"' :: rest) := by
      intro e he
      rw [content.eq_def]
      dsimp only
      rw [if_neg (by decide), if_pos rfl]
      simp only [ih, he]
    rw [List.flatMap_cons, List.append_assoc, escape]
    split
    · rename_i quote
      exact escaped '"' quote.symm
    split
    · rename_i quote
      exact escaped '\\' quote.symm
    split
    · rename_i quote
      exact escaped 'n' quote.symm
    split
    · rename_i quote
      exact escaped 't' quote.symm
    split
    · rename_i quote
      exact escaped 'r' quote.symm
    split
    · rename_i quote
      exact escaped '0' quote.symm
    · rename_i quote slash _ _ _ _
      rw [List.singleton_append, content.eq_def]
      dsimp only
      rw [if_neg quote, if_neg slash]
      simp only [ih]

theorem textConstant_quoted (s : String) (rest : List Char) :
    textConstant (quoted s.toList ++ rest) = .ok s rest := by
  have inside : Reader.Takes (do
      let cs ← (content '"' : Reader (List Char))
      Reader.char '"'
      return String.ofList cs) (s.toList.flatMap escape ++ '"' :: rest) s rest True := by
    refine .after (content_escape s.toList rest) (.after (Reader.char_self '"' rest) ?_)
    rw [String.ofList_toList]
    exact .pure s rest
  have whole : Reader.Takes textConstant (quoted s.toList ++ rest) s rest True := by
    rw [quoted, List.cons_append, List.append_assoc]
    exact .orElse (.after (Reader.char_self '"' _) ((inside.cut.within _).wanting _))
  exact whole.ok trivial

theorem soft_textConstant {c : Char} (double : c ≠ '"') (single : c ≠ '\'') (s : List Char) :
    (textConstant (c :: s)).Soft := by
  refine Reader.soft_orElse (Reader.soft_bind (Reader.soft_char ?_)) (Reader.soft_bind (Reader.soft_char ?_))
  · exact fun e => double (Option.some.inj e)
  · exact fun e => single (Option.some.inj e)

inductive Inside (quote : Char) : List Char → Prop where
  | nil : Inside quote []
  | plain {c : Char} {s : List Char} (hq : c ≠ quote) (hb : c ≠ '\\') (hs : Inside quote s) : Inside quote (c :: s)
  | escaped {c : Char} {s : List Char} (hs : Inside quote s) : Inside quote ('\\' :: c :: s)

/-- Content is read up to the first quote that no backslash precedes. -/
theorem content_inside {quote : Char} (hq : quote ≠ '\\') {s : List Char} (h : Inside quote s) :
    ∃ cs, ∀ rest, content quote (s ++ quote :: rest) = .ok cs (quote :: rest) := by
  induction h with
  | nil =>
    refine ⟨[], fun rest => ?_⟩
    rw [List.nil_append, content.eq_def]
    dsimp only
    rw [if_pos rfl]
  | @plain c s hc hb hs ih =>
    obtain ⟨cs, read⟩ := ih
    refine ⟨c :: cs, fun rest => ?_⟩
    rw [List.cons_append, content.eq_def]
    dsimp only
    rw [if_neg hc, if_neg hb, read rest]
  | @escaped c s hs ih =>
    obtain ⟨cs, read⟩ := ih
    refine ⟨unescape c :: cs, fun rest => ?_⟩
    rw [List.cons_append, List.cons_append, content.eq_def]
    dsimp only
    rw [if_neg (Ne.symm hq), if_pos rfl, read rest]

theorem inside_of_content {quote : Char} {s cs rest : List Char} (h : content quote s = .ok cs rest) :
    ∃ w, s = w ++ rest ∧ Inside quote w := by
  fun_induction content quote s generalizing cs with
  | case1 => cases h
  | case2 =>
    cases h
    exact ⟨[], rfl, .nil⟩
  | case3 => cases h
  | case4 e s cs rest more _ ih =>
    cases h
    obtain ⟨w, rfl, inside⟩ := ih more
    exact ⟨_, rfl, .escaped inside⟩
  | case5 e s _ fails ih => exact (fails _ _ h).elim
  | case6 c s hq hb cs rest more ih =>
    cases h
    obtain ⟨w, rfl, inside⟩ := ih more
    exact ⟨_, rfl, .plain hq hb inside⟩
  | case7 c s _ _ fails ih => exact (fails _ _ h).elim

theorem textBetween_eq_ok_iff {quote : Char} {s rest : List Char} {t : String} :
    textBetween quote s = .ok t rest ↔
      ∃ s' cs, s = quote :: s' ∧ content quote s' = .ok cs (quote :: rest) ∧ t = String.ofList cs := by
  simp only [textBetween, Reader.bind_eq_ok_iff, Reader.wanting, Reader.within, Reader.reporting_eq_ok_iff,
    Reader.cut_eq_ok_iff, Reader.char_eq_ok_iff]
  constructor
  · rintro ⟨-, s', rfl, read⟩
    obtain ⟨cs, mid, inside, read⟩ := Reader.bind_eq_ok_iff.1 read
    obtain ⟨_, after, closing, done⟩ := Reader.bind_eq_ok_iff.1 read
    obtain rfl := Reader.char_eq_ok_iff.1 closing
    cases done
    exact ⟨s', cs, rfl, inside, rfl⟩
  · rintro ⟨s', cs, rfl, inside, rfl⟩
    refine ⟨(), s', rfl, Reader.bind_eq_ok_iff.2 ⟨cs, quote :: rest, inside, ?_⟩⟩
    exact Reader.bind_eq_ok_iff.2 ⟨(), rest, Reader.char_self quote rest, rfl⟩

theorem textConstant_eq_ok_iff {s rest : List Char} {t : String} :
    textConstant s = .ok t rest ↔
      ∃ quote s' cs, (quote = '"' ∨ quote = '\'') ∧ s = quote :: s' ∧
        content quote s' = .ok cs (quote :: rest) ∧ t = String.ofList cs := by
  rw [textConstant, Reader.orElse_eq_ok_iff]
  constructor
  · rintro (double | ⟨-, single⟩)
    · obtain ⟨s', cs, h⟩ := textBetween_eq_ok_iff.1 double
      exact ⟨'"', s', cs, .inl rfl, h⟩
    · obtain ⟨s', cs, h⟩ := textBetween_eq_ok_iff.1 single
      exact ⟨'\'', s', cs, .inr rfl, h⟩
  · rintro ⟨quote, s', cs, rfl | rfl, rfl, h⟩
    · exact .inl (textBetween_eq_ok_iff.2 ⟨s', cs, rfl, h⟩)
    · have soft : (textBetween '"' ('\'' :: s')).Soft := Reader.soft_bind (Reader.soft_char fun e => nomatch e)
      exact .inr ⟨soft, textBetween_eq_ok_iff.2 ⟨s', cs, rfl, h⟩⟩

theorem ne_backslash {quote : Char} (h : quote = '"' ∨ quote = '\'') : quote ≠ '\\' := by
  rcases h with rfl | rfl <;> decide

theorem textConstant_inside {quote : Char} (hq : quote = '"' ∨ quote = '\'') {s : List Char}
    (h : Inside quote s) : ∃ t, ∀ rest, textConstant (quote :: (s ++ [quote]) ++ rest) = .ok t rest := by
  obtain ⟨cs, read⟩ := content_inside (ne_backslash hq) h
  refine ⟨String.ofList cs, fun rest => textConstant_eq_ok_iff.2 ⟨quote, s ++ quote :: rest, cs, hq, ?_, read rest, rfl⟩⟩
  rw [List.cons_append, List.append_assoc, List.singleton_append]

theorem inside_of_textConstant {s rest : List Char} {t : String} (h : textConstant s = .ok t rest) :
    ∃ quote w, (quote = '"' ∨ quote = '\'') ∧ s = quote :: (w ++ [quote]) ++ rest ∧ Inside quote w := by
  obtain ⟨quote, s', cs, hq, rfl, read, -⟩ := textConstant_eq_ok_iff.1 h
  obtain ⟨w, rfl, inside⟩ := inside_of_content read
  exact ⟨quote, w, hq, by rw [List.cons_append, List.append_assoc, List.singleton_append], inside⟩

theorem soft_number {c : Char} (digit : c.isDigit = false) (point : c ≠ '.') (s : List Char) :
    (number (c :: s)).Soft := by
  have none : numeral? (c :: s) = none := by
    unfold numeral? Number.spanDigits
    rw [List.takeWhile_cons, digit]
    simp only [Bool.false_eq_true, if_false]
    split
    · rename_i e
      exact absurd (List.cons.inj e).1 point
    · rfl
  rw [number, none]
  exact ⟨_, rfl⟩

theorem operator_symbol {op : BinaryOp} (notPow : op ≠ .pow) (s : List Char) :
    operator (Grammar.operatorsAt op.precedence) (op.symbol ++ ' ' :: s) = .ok op (' ' :: s) := by
  cases op with
  | pow => exact absurd rfl notPow
  | _ => rfl

theorem precedence_of_mem_operatorsAt {op : BinaryOp} {q : Nat} (h : op ∈ Grammar.operatorsAt q) :
    op.precedence = q := by
  unfold Grammar.operatorsAt at h
  split at h
  all_goals simp only [List.mem_cons, List.not_mem_nil, or_false] at h
  all_goals rcases h with rfl | rfl | rfl | rfl <;> rfl

theorem isPrefixOf_symbol {op other : BinaryOp} (h : op.precedence ≠ other.precedence) (s : List Char) :
    other.symbol.isPrefixOf (op.symbol ++ ' ' :: s) = false := by
  cases op <;> cases other <;> first | exact absurd rfl h | rfl

theorem soft_operator_of {q : Nat} {s : List Char}
    (h : ∀ op ∈ Grammar.operatorsAt q, op.symbol.isPrefixOf s = false) :
    (operator (Grammar.operatorsAt q) s).Soft := by
  have none : (Grammar.operatorsAt q).find? (fun op =>
      op.symbol.isPrefixOf s && !(op = .div && ['/', '/'].isPrefixOf s)) = none := by
    rw [List.find?_eq_none]
    intro op hop
    rw [h op hop, Bool.false_and]
    exact Bool.false_ne_true
  unfold operator
  rw [none]
  exact ⟨_, rfl⟩

theorem soft_operator {op : BinaryOp} {q : Nat} (h : op.precedence ≠ q) (s : List Char) :
    (operator (Grammar.operatorsAt q) (op.symbol ++ ' ' :: s)).Soft := by
  refine soft_operator_of fun other hother => isPrefixOf_symbol ?_ s
  rwa [precedence_of_mem_operatorsAt hother]

theorem sign_symbol (op : UnaryOp) {s : List Char} (h : Starts s) : sign (op.symbol :: s) = .ok op s := by
  obtain ⟨c, more, rfl, -, -, equals⟩ := h
  cases op with
  | neg => rfl
  | plus => rfl
  | not =>
    change sign ('!' :: c :: more) = _
    unfold sign
    split
    · rename_i e; cases e
    · rename_i e; cases e
    · rename_i e; cases e; exact absurd rfl equals
    · rename_i e; cases e; rfl
    · rename_i e; exact absurd rfl (e _)

def isSign (c : Char) : Bool := c = '-' || c = '+' || c = '!'

theorem soft_sign {c : Char} (h : isSign c = false) (s : List Char) : (sign (c :: s)).Soft := by
  simp only [isSign, Bool.or_eq_false_iff, decide_eq_false_iff_not] at h
  unfold sign
  split
  · rename_i e; exact absurd (List.cons.inj e).1 h.1.1
  · rename_i e; exact absurd (List.cons.inj e).1 h.1.2
  · exact ⟨_, rfl⟩
  · rename_i e; exact absurd (List.cons.inj e).1 h.2
  · exact ⟨_, rfl⟩

end DerivedColumns.Formula
