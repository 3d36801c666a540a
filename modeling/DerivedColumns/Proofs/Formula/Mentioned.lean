import DerivedColumns.Formula.Parse
import DerivedColumns.Formula.Reads
import DerivedColumns.Proofs.Formula.Spelled
import DerivedColumns.Proofs.Graph.Edges

set_option autoImplicit false

namespace DerivedColumns.Formula

def opens : List Token → Bool
  | .symbol ['('] :: _ => true
  | _ => false

def isConstant (name : String) : Bool := ["true", "false", "null"].contains (Text.lowercase name)

/-- The names among the words that begin no call and are no constants. -/
def namesAmong : List (List Char) → List String
  | [] => []
  | w :: ws =>
    if isWord w && !(isConstant (String.ofList w) || ws.head? == some ['(']) then String.ofList w :: namesAmong ws
    else namesAmong ws

def readNames : List Token → List String
  | [] => []
  | .name n :: ts => if isConstant n || opens ts then readNames ts else n :: readNames ts
  | _ :: ts => readNames ts

theorem opens_eq {ts : List Token} {ws : List (List Char)} (h : List.Forall₂ Stands ts ws) :
    opens ts = (ws.head? == some ['(']) := by
  cases h with
  | nil => rfl
  | @cons t w ts ws stands _ =>
    rw [List.head?_cons, Bool.eq_iff_iff, beq_iff_eq, Option.some.injEq, ← stands.opening]
    unfold opens
    split
    · rename_i same
      exact iff_of_true rfl (List.cons.inj same).1
    · rename_i other
      exact iff_of_false Bool.false_ne_true fun same => other ts (by rw [same])

theorem readNames_eq {ts : List Token} {ws : List (List Char)} (h : List.Forall₂ Stands ts ws) :
    readNames ts = namesAmong ws := by
  induction h with
  | nil => rfl
  | @cons t w ts ws stands all ih =>
    rw [namesAmong]
    by_cases word : isWord w = true
    · rw [(stands.name (String.ofList w)).2 ⟨word, rfl⟩, readNames, opens_eq all, ih, word, Bool.true_and]
      cases isConstant (String.ofList w) || ws.head? == some ['('] <;> rfl
    · rw [Bool.eq_false_iff.2 word, Bool.false_and, if_neg Bool.false_ne_true, ← ih]
      cases t with
      | name n => exact absurd ((stands.name n).1 rfl).1 word
      | _ => rfl

structure Part (names : List String) (s rest : List Char) : Prop where
  reads : readNames (tokens s) = names ++ readNames (tokens rest)
  proper : (∀ t ∈ tokens rest, t.isProper) → ∀ t ∈ tokens s, t.isProper
  le : rest.length ≤ s.length

namespace Part

variable {names more : List String} {s mid rest : List Char}

theorem refl (s : List Char) : Part [] s s := ⟨rfl, id, Nat.le_refl _⟩

theorem trans (h : Part names s mid) (next : Part more mid rest) : Part (names ++ more) s rest where
  reads := by rw [h.reads, next.reads, List.append_assoc]
  proper := h.proper ∘ next.proper
  le := next.le.trans h.le

theorem skip (s : List Char) : Part [] s (skipLayout s) where
  reads := by rw [tokens_skipLayout, List.nil_append]
  proper := by rw [tokens_skipLayout]; exact id
  le := skipLayout_length_le s

theorem token {t : Token} (next : token? s = some (t, rest)) (ht : t.isProper)
    (hn : readNames (t :: tokens rest) = names ++ readNames (tokens rest)) : Part names s rest := by
  have here : skipLayout s = s := skipLayout_of_token? next fun stray => by rw [stray] at ht; cases ht
  have first : tokens s = t :: tokens rest := tokens_of_token (by rw [here, next])
  refine ⟨by rw [first, hn], fun proper => ?_, (token?_length next).le⟩
  rw [first]
  exact List.forall_mem_cons.2 ⟨ht, proper⟩

end Part

/-! ### What readers tell of the names -/

/-- What the reader makes of a part of the text is in this relation to the names there. -/
def Tells {α : Type} (p : Reader α) (W : α → List String → Prop) : Prop :=
  ∀ s a rest, p s = .ok a rest → ∃ names, Part names s rest ∧ W a names

def Silent {α : Type} (p : Reader α) : Prop := Tells p fun _ names => names = []

def Perhaps {α : Type} (W : α → List String → Prop) : Option α → List String → Prop
  | some a, names => W a names
  | none, names => names = []

namespace Tells

variable {α β : Type} {p q : Reader α} {next : α → Reader β} {V : α → List String → Prop}
  {W : β → List String → Prop}

theorem pure {a : α} (h : V a []) : Tells (Pure.pure a) V := by
  intro s b rest read
  cases read
  exact ⟨[], .refl s, h⟩

theorem bind (h : Tells p V)
    (hnext : ∀ a names, V a names → Tells (next a) fun b more => W b (names ++ more)) :
    Tells (p >>= next) W := by
  intro s b rest read
  obtain ⟨a, mid, first, second⟩ := Reader.bind_eq_ok_iff.1 read
  obtain ⟨names, part, ha⟩ := h s a mid first
  obtain ⟨more, part', hb⟩ := hnext a names ha mid b rest second
  exact ⟨names ++ more, part.trans part', hb⟩

theorem after (h : Silent p) (hnext : ∀ a, Tells (next a) W) : Tells (p >>= next) W := by
  refine h.bind fun a names silent => ?_
  rw [silent]
  exact hnext a

theorem tooDeep : Tells Reader.tooDeep V := fun _ _ _ read => nomatch read

theorem reporting (h : Tells p V) (change : Cause → Cause) : Tells (p.reporting change) V :=
  fun s a rest read => h s a rest (Reader.reporting_eq_ok_iff.1 read)

theorem within (h : Tells p V) (label : String) : Tells (p.within label) V := h.reporting _

theorem wanting (h : Tells p V) (e : Expected) : Tells (p.wanting e) V := h.reporting _

theorem cut (h : Tells p V) : Tells p.cut V := fun s a rest read => h s a rest (Reader.cut_eq_ok_iff.1 read)

theorem orElse (hp : Tells p V) (hq : Tells q V) : Tells (p.orElse q) V := by
  intro s a rest read
  rcases Reader.orElse_eq_ok_iff.1 read with first | ⟨-, second⟩
  · exact hp s a rest first
  · exact hq s a rest second

theorem optional (h : Tells p V) : Tells p.optional (Perhaps V) := by
  intro s o rest read
  unfold Reader.optional at read
  split at read <;> cases read
  · rename_i a ok
    exact h s a rest ok
  · exact ⟨[], .refl s, rfl⟩

theorem many {V' : List α → List String → Prop} (h : Tells p V) (nil : V' [] [])
    (cons : ∀ a as names more, V a names → V' as more → V' (a :: as) (names ++ more)) : Tells p.many V' := by
  intro s
  fun_induction Reader.many p s with
  | case1 s a mid first shorter as rest more ih =>
    intro all rest' read
    cases read
    obtain ⟨names, part, ha⟩ := h s a mid first
    obtain ⟨names', part', has⟩ := ih as rest more
    exact ⟨names ++ names', part.trans part', cons a as names names' ha has⟩
  | case2 s a mid first shorter fails ih =>
    intro as rest read
    exact (fails as rest read).elim
  | case3 s a mid first stuck =>
    intro as rest read
    cases read
    exact ⟨[], .refl s, nil⟩
  | case4 s f soft =>
    intro as rest read
    cases read
    exact ⟨[], .refl s, nil⟩
  | case5 s f hard =>
    intro as rest read
    cases read

end Tells

theorem silent_skip : Silent skip := by
  intro s u rest read
  cases read
  exact ⟨[], .skip s, rfl⟩

/-- A reader of tokens that are no names is silent. -/
theorem Picks.silent {α : Type} {p : Reader α} {pick : Token → Pick α} (h : Picks p pick)
    (other : ∀ t a, pick t = .take a → t.isProper ∧ ∀ n, t ≠ .name n) : Silent p := by
  intro s a rest read
  obtain ⟨t, picked, next⟩ := h.of_ok read
  obtain ⟨proper, notName⟩ := other t a picked
  refine ⟨[], .token next proper ?_, rfl⟩
  cases t with
  | name n => exact absurd rfl (notName n)
  | _ => rfl

theorem Pick.symbol_of_take {α : Type} {result? : List Char → Option α} {t : Token} {a : α}
    (h : (match t with
      | .symbol cs => Pick.ofOption (result? cs)
      | _ => .pass) = .take a) : t.isProper ∧ ∀ n, t ≠ .name n := by
  cases t with
  | symbol cs => exact ⟨rfl, nofun⟩
  | _ => cases h

theorem silent_char {c : Char} (h : c ∈ delimiters) : Silent (Reader.char c) :=
  (picks_char h).silent fun _ _ => Pick.symbol_of_take

theorem silent_closing {c : Char} (h : c ∈ delimiters) : Silent (Reader.wanting (.symbol c) (Reader.char c)) :=
  (silent_char h).wanting _

theorem silent_operator (q : Nat) : Silent (operator (Grammar.operatorsAt q)) :=
  (picks_operator q).silent fun _ _ => Pick.symbol_of_take

theorem silent_sign : Silent sign := picks_sign.silent fun _ _ => Pick.symbol_of_take

theorem silent_number : Silent number := by
  refine picks_number.silent fun t a picked => ?_
  cases t with
  | number n => exact ⟨rfl, nofun⟩
  | _ => cases picked

theorem silent_textConstant : Silent textConstant := by
  refine picks_textConstant.silent fun t a picked => ?_
  cases t with
  | text s => exact ⟨rfl, nofun⟩
  | _ => cases picked

theorem keyword?_cases (name : String) :
    (isConstant name = true ∧ ∃ a, Grammar.keyword? name = some a ∧ a.reads = ∅) ∨
      (isConstant name = false ∧ Grammar.keyword? name = none) := by
  unfold Grammar.keyword? isConstant
  split
  · rename_i same
    exact .inl ⟨by rw [same]; rfl, _, rfl, rfl⟩
  · rename_i same
    exact .inl ⟨by rw [same]; rfl, _, rfl, rfl⟩
  · rename_i same
    exact .inl ⟨by rw [same]; rfl, _, rfl, rfl⟩
  · exact .inr ⟨by simp_all, rfl⟩

/-! ### The grammar -/

def Mentions (f : Formula) (names : List String) : Prop := ∀ x, x ∈ f.reads ↔ x ∈ names

def MentionsAll (fs : List Formula) (names : List String) : Prop := ∀ x, x ∈ readsAll fs ↔ x ∈ names

theorem MentionsAll.nil : MentionsAll [] [] := by
  intro x
  rw [readsAll]
  simp

theorem MentionsAll.cons {f : Formula} {fs : List Formula} {names more : List String} (h : Mentions f names)
    (hs : MentionsAll fs more) : MentionsAll (f :: fs) (names ++ more) := by
  intro x
  rw [readsAll, Std.ExtTreeSet.mem_union_iff, List.mem_append, h x, hs x]

theorem Mentions.binary {left right : Formula} {names more : List String} (op : BinaryOp) (hl : Mentions left names)
    (hr : Mentions right more) : Mentions (.binary op left right) (names ++ more) := by
  intro x
  rw [reads, Std.ExtTreeSet.mem_union_iff, List.mem_append, hl x, hr x]

theorem mem_reads_foldLeft (x : String) (first : Formula) (more : List (BinaryOp × Formula)) :
    x ∈ (Grammar.foldLeft first more).reads ↔ x ∈ first.reads ∨ x ∈ readsAll (more.map Prod.snd) := by
  induction more generalizing first with
  | nil =>
    rw [Grammar.foldLeft, List.foldl_nil, List.map_nil, readsAll]
    simp
  | cons e more ih =>
    rw [Grammar.foldLeft, List.foldl_cons, ← Grammar.foldLeft, ih, List.map_cons, readsAll, reads,
      Std.ExtTreeSet.mem_union_iff, Std.ExtTreeSet.mem_union_iff, or_assoc]

namespace Grammar

structure Telling (deeper : Grammar) : Prop where
  choice : Tells deeper.choice Mentions
  power : Tells deeper.power Mentions
  signed : Tells deeper.signed Mentions

theorem tells_operand {p : Reader Formula} (h : Tells p Mentions) : Tells (operand p) Mentions :=
  ((h.within _).wanting _).cut

theorem tells_link (q : Nat) {p : Reader Formula} (h : Tells p Mentions) :
    Tells (do
      skip
      let op ← operator (operatorsAt q)
      let right ← operand p
      return (op, right)) fun e names => Mentions e.2 names := by
  refine .after silent_skip fun _ => .after (silent_operator q) fun op => (tells_operand h).bind ?_
  intro right names reads
  exact .pure (by rwa [List.append_nil])

theorem tells_chain (q : Nat) {p : Reader Formula} (h : Tells p Mentions) :
    Tells (chain (operatorsAt q) p) Mentions := by
  refine h.bind fun first names hfirst => ?_
  have links : Tells (Reader.many _) fun more names => MentionsAll (more.map Prod.snd) names :=
    (tells_link q h).many .nil fun _ _ _ _ => .cons
  refine links.bind fun more names' hmore => ?_
  split
  · exact .tooDeep
  · refine .pure fun x => ?_
    rw [mem_reads_foldLeft, hfirst x, hmore x, List.append_nil, List.mem_append]

theorem tells_chains (levels : List Nat) {p : Reader Formula} (h : Tells p Mentions) :
    Tells (chains levels p) Mentions := by
  induction levels with
  | nil => exact h
  | cons level tighter ih => exact tells_chain level ih

theorem soft_arguments_iff (deeper : Grammar) (s : List Char) :
    ((do skip; arguments deeper : Reader (List Formula)) s).Soft ↔ opens (tokens s) = false := by
  show (arguments deeper (skipLayout s)).Soft ↔ _
  have opening := @(picks_char (c := '(') (by decide)).token (skipLayout s)
  cases next : token? (skipLayout s) with
  | none =>
    have nil := token?_eq_none next
    rw [tokens_of_nil nil, nil]
    exact iff_of_true (Reader.soft_bind ⟨_, rfl⟩) rfl
  | some found =>
    obtain ⟨t, rest⟩ := found
    have gives := opening next
    rw [tokens_of_token next]
    by_cases open_ : t = .symbol ['(']
    · subst open_
      refine iff_of_false (fun soft => ?_) Bool.noConfusion
      rw [arguments, Reader.bind_of_ok gives, Reader.within, Reader.soft_reporting_iff] at soft
      exact Reader.not_soft_cut _ soft
    · have soft : (Reader.char '(' (skipLayout s)).Soft := by
        cases t with
        | symbol cs =>
          have other : cs ≠ ['('] := fun same => open_ (by rw [same])
          have gives : (Pick.ofOption (if cs = ['('] then some () else none)).Gives rest _ := gives
          rwa [if_neg other] at gives
        | _ => exact gives
      refine iff_of_true (Reader.soft_bind soft) ?_
      unfold opens
      split
      · rename_i same
        exact absurd (List.cons.inj same).1 open_
      · rfl

theorem opens_of_arguments {deeper : Grammar} {s rest : List Char} {args : List Formula}
    (read : (do skip; arguments deeper : Reader (List Formula)) s = .ok args rest) : opens (tokens s) = true := by
  by_contra no
  obtain ⟨f, soft⟩ := (soft_arguments_iff deeper s).2 (Bool.eq_false_iff.2 no)
  rw [soft] at read
  cases read

section Above

variable {deeper : Grammar} (h : Telling deeper)

include h

theorem tells_parenthesized : Tells (parenthesized deeper) Mentions := by
  refine .after (silent_char (by decide)) fun _ => .cut ?_
  refine ((h.choice.within _).wanting _).bind fun f names reads => ?_
  refine .after silent_skip fun _ => .after (silent_closing (by decide)) fun _ => .pure ?_
  rwa [List.append_nil]

theorem tells_arguments : Tells (arguments deeper) MentionsAll := by
  have comma : Silent (do skip; Reader.char ',') := .after silent_skip fun _ => silent_char (by decide)
  have args : Tells (Reader.separated deeper.choice do skip; Reader.char ',') MentionsAll := by
    refine h.choice.bind fun first names hfirst => ?_
    refine (Tells.many (.after comma fun _ => h.choice) MentionsAll.nil fun _ _ _ _ => .cons).bind ?_
    intro rest names' hrest
    refine .pure ?_
    rw [List.append_nil]
    exact .cons hfirst hrest
  refine .after (silent_char (by decide)) fun _ => .within (.cut (args.optional.bind fun found names reads => ?_)) _
  refine .after silent_skip fun _ => .after (silent_closing (by decide)) fun _ => .pure ?_
  rw [List.append_nil]
  cases found with
  | none =>
    cases reads
    exact .nil
  | some args => exact reads

theorem tells_named : Tells (named deeper) Mentions := by
  intro s f rest read
  obtain ⟨name, mid, first, read⟩ := Reader.bind_eq_ok_iff.1 read
  obtain ⟨args, left, second, done⟩ := Reader.bind_eq_ok_iff.1 read
  obtain ⟨t, picked, next⟩ := picks_word.of_ok first
  have named : t = .name name := by
    cases t with
    | name n =>
      cases picked
      rfl
    | _ => cases picked
  subst named
  rcases Reader.optional_eq_ok_iff.1 second with ⟨args, rfl, call⟩ | ⟨rfl, rfl, soft⟩
  · cases done
    obtain ⟨names, part, reads⟩ := (Tells.after silent_skip fun _ => tells_arguments h) mid args rest call
    have head : Part [] s mid := by
      refine .token next rfl ?_
      rw [readNames, opens_of_arguments call, Bool.or_true, if_pos rfl, List.nil_append]
    refine ⟨names, head.trans part, fun x => ?_⟩
    rw [Formula.reads, reads x]
  · cases done
    have plain : opens (tokens rest) = false := (soft_arguments_iff deeper rest).1 soft
    rcases keyword?_cases name with ⟨constant, a, found, none⟩ | ⟨field, found⟩
    · refine ⟨[], .token next rfl ?_, fun x => ?_⟩
      · rw [readNames, constant, Bool.true_or, if_pos rfl, List.nil_append]
      · rw [found, Option.getD_some, Formula.reads, none]
        simp
    · refine ⟨[name], .token next rfl ?_, fun x => ?_⟩
      · rw [readNames, field, plain, Bool.or_false, if_neg Bool.false_ne_true, List.singleton_append]
      · rw [found, Option.getD_none, Formula.reads, Atom.reads, Names.mem_ofList]

theorem tells_primary : Tells (primary deeper) Mentions := by
  refine .after silent_skip fun _ => .orElse (tells_parenthesized h) (.orElse ?_ (.orElse ?_ (tells_named h)))
  · refine .after silent_number fun x => .pure fun y => ?_
    simp [reads, Atom.reads]
  · refine .after silent_textConstant fun s => .pure fun y => ?_
    simp [reads, Atom.reads]

theorem tells_signedAbove : Tells (signedAbove deeper) Mentions := by
  refine (Tells.optional (.after silent_skip fun _ => silent_sign)).bind fun op names silent => ?_
  cases op with
  | none =>
    cases silent
    exact tells_primary h
  | some op =>
    cases silent
    refine (tells_operand h.signed).bind fun x more reads => .pure fun y => ?_
    rw [Formula.reads, reads y, List.append_nil, List.nil_append]

theorem tells_powerAbove : Tells (powerAbove deeper) Mentions := by
  refine (tells_signedAbove h).bind fun base names hbase => ?_
  refine (Tells.optional (.after silent_skip fun _ => .after (silent_char (by decide)) fun _ =>
    tells_operand h.power)).bind fun exponent more hexponent => ?_
  cases exponent with
  | none =>
    cases hexponent
    exact .pure (by rwa [List.append_nil, List.append_nil])
  | some e => exact .pure (by rw [List.append_nil]; exact hbase.binary .pow hexponent)

theorem tells_branches :
    Tells (branches deeper) fun e names => ∀ x, x ∈ e.1.reads ∪ e.2.reads ↔ x ∈ names := by
  refine .after silent_skip fun _ => .after (silent_char (by decide)) fun _ => .cut ?_
  refine ((h.choice.within _).wanting _).bind fun yes names hyes => ?_
  refine .after silent_skip fun _ => .after (silent_closing (by decide)) fun _ => ?_
  refine h.choice.bind fun no more hno => .pure fun x => ?_
  rw [Std.ExtTreeSet.mem_union_iff, List.append_nil, List.mem_append, hyes x, hno x]

theorem tells_choiceAbove : Tells (choiceAbove deeper) Mentions := by
  refine (tells_chains _ (tells_powerAbove h)).bind fun condition names hcondition => ?_
  refine (tells_branches h).optional.bind fun found more hfound => ?_
  cases found with
  | none =>
    cases hfound
    exact .pure (by rwa [List.append_nil, List.append_nil])
  | some e =>
    refine .pure fun x => ?_
    have both := hfound x
    rw [Std.ExtTreeSet.mem_union_iff] at both
    rw [reads, Std.ExtTreeSet.mem_union_iff, Std.ExtTreeSet.mem_union_iff, or_assoc, both, hcondition x,
      List.append_nil, List.mem_append]

end Above

theorem telling_ofLevels (n : Nat) : Telling (ofLevels n) := by
  induction n with
  | zero => exact ⟨.tooDeep, .tooDeep, .tooDeep⟩
  | succ n ih => exact ⟨tells_choiceAbove ih, tells_powerAbove ih, tells_signedAbove ih⟩

end Grammar

theorem read_of_parse {text : String} {f : Formula} (h : parse text = .ok f) :
    ∃ rest, (Grammar.ofLevels maxNesting).choice text.toList = .ok f rest ∧ skipLayout rest = [] := by
  rw [parse, parseChars] at h
  split at h
  · cases h
  split at h
  · rename_i g rest read
    split at h
    · rename_i done
      cases h
      exact ⟨rest, read, done⟩
    · cases h
  · cases h
  · cases h

/-- A text that is read as a formula splits into words, and the formula reads just the names among them that
begin no call and are no constants. -/
theorem reads_of_parse {text : String} {f : Formula} (h : parse text = .ok f) :
    (∃! ws, Splits text.toList ws) ∧ ∀ ws, Splits text.toList ws → f.reads = Names.ofList (namesAmong ws) := by
  obtain ⟨rest, read, done⟩ := read_of_parse h
  obtain ⟨names, part, mentions⟩ := (Grammar.telling_ofLevels maxNesting).choice _ f rest read
  have none : tokens rest = [] := tokens_of_nil done
  obtain ⟨ws, splits, all⟩ := splits_tokens (part.proper (by rw [none]; exact nofun))
  refine ⟨⟨ws, splits, fun _ other => other.unique splits⟩, fun ws' splits' => Std.ExtTreeSet.ext_mem fun x => ?_⟩
  rw [splits'.unique splits, mentions x, Names.mem_ofList, ← readNames_eq all, part.reads, none, readNames, List.append_nil]

/-- A constant before a parenthesis begins a call, and an exponent, a text constant and a comment mention
nothing. -/
theorem reads_of_parse_mixed :
    ∃ f, parse "TRUE ? null (a, 1e5 * b, 'c') : $d // e\n/ f(a)" = .ok f ∧ f.reads.toList = ["$d", "a", "b"] ∧
      (∃! ws, Splits "TRUE ? null (a, 1e5 * b, 'c') : $d // e\n/ f(a)".toList ws) ∧
        ∀ ws, Splits "TRUE ? null (a, 1e5 * b, 'c') : $d // e\n/ f(a)".toList ws →
          f.reads = Names.ofList (namesAmong ws) := by
  have names : (parse "TRUE ? null (a, 1e5 * b, 'c') : $d // e\n/ f(a)").toOption.map (fun f => f.reads.toList) =
      some ["$d", "a", "b"] := by
    decide +kernel
  cases read : parse "TRUE ? null (a, 1e5 * b, 'c') : $d // e\n/ f(a)" with
  | error e =>
    rw [read] at names
    cases names
  | ok f =>
    rw [read] at names
    exact ⟨f, rfl, Option.some.inj names, reads_of_parse read⟩

end DerivedColumns.Formula
