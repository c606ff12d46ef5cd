import Curried.Proofs.Reader.Expr

/-!
Expressions as text. `Layout e text` says that the text writes the expression, with any blanks that
keep its elements apart. Every layout of an expression whose atoms are legal is read as the
expression, and only such expressions are read (`Expr.parse_layout`).
-/

namespace Curried

namespace Token

/-- A run of blanks, which may be empty. -/
def Blanks (cs : List Char) : Prop := ∀ c ∈ cs, isBlank c

/-- What stands for a character between quotes. -/
def escape (c : Char) : List Char :=
  if c = '"' then ['\\', '"']
  else if c = '\\' then ['\\', '\\']
  else if c = '\n' then ['\\', 'n']
  else if c = '\t' then ['\\', 't']
  else [c]

theorem unescapes_escape (text : List Char) : Unescapes (text.flatMap escape) text := by
  induction text with
  | nil => exact .nil
  | cons c text ih =>
    rw [List.flatMap_cons, escape]
    split_ifs with hquote hslash hn ht
    · exact hquote ▸ .quote ih
    · exact hslash ▸ .backslash ih
    · exact hn ▸ .newline ih
    · exact ht ▸ .tab ih
    · exact .plain hquote hslash ih

theorem lexes_blanks {gap rest : List Char} {ks : List Kind} (hgap : Blanks gap)
    (h : Lexes rest ks) : Lexes (gap ++ rest) ks := by
  induction gap with
  | nil => exact h
  | cons c gap ih =>
    obtain ⟨hc, hgap⟩ := List.forall_mem_cons.mp hgap
    exact .blank hc (ih hgap)

theorem head?_blanks_append {gap rest : List Char} (hgap : Blanks gap)
    (hrest : ∀ c ∈ rest.head?, isDelimiter c) : ∀ c ∈ (gap ++ rest).head?, isDelimiter c := by
  cases gap with
  | nil => exact hrest
  | cons c gap => simp [isDelimiter, hgap c List.mem_cons_self]

/-- The text can be an atom: it is not empty, and nothing in it ends an atom. -/
structure IsWord (word : List Char) : Prop where
  ne_nil : word ≠ []
  not_delimiter : ∀ c ∈ word, ¬isDelimiter c

theorem isWord_true : IsWord "true".toList := ⟨by simp, by simp [isDelimiter, isBlank]⟩

theorem isWord_false : IsWord "false".toList := ⟨by simp, by simp [isDelimiter, isBlank]⟩

theorem lexes_word {word rest : List Char} {ks : List Kind} (hword : IsWord word)
    (hrest : ∀ c ∈ rest.head?, isDelimiter c) (h : Lexes rest ks) :
    Lexes (word ++ rest) (.atom (String.ofList word) :: ks) := by
  cases word with
  | nil => exact absurd rfl hword.ne_nil
  | cons c word => exact .atom hword.not_delimiter hrest h

theorem isWord_of_lexes {cs : List Char} {ks : List Kind} {name : String} (h : Lexes cs ks)
    (hname : .atom name ∈ ks) : IsWord name.toList := by
  induction h with
  | nil => cases hname
  | blank _ _ ih => exact ih hname
  | openParen _ ih | closeParen _ ih | str _ _ ih =>
    exact ih ((List.mem_cons.mp hname).resolve_left nofun)
  | atom hword _ _ ih =>
    rcases List.mem_cons.mp hname with hname | hname
    · cases hname
      exact ⟨by simp, by simpa using hword⟩
    · exact ih hname

end Token

namespace Reader

theorem Decimal.isWord {digits : List Char} {n : Nat} (h : Decimal digits n) :
    Token.IsWord digits := by
  refine ⟨h.ne_nil, fun c hc hdelimiter => ?_⟩
  have hdigit := h.isDigit c hc
  simp only [Token.isDelimiter, Token.isBlank, Bool.or_eq_true, beq_iff_eq] at hdelimiter
  obtain (((((rfl | rfl) | rfl) | rfl) | rfl) | rfl) | rfl := hdelimiter <;> cases hdigit

theorem Numeral.isWord {text : List Char} {n : Int} (h : Numeral text n) : Token.IsWord text := by
  cases h with
  | nonneg h => exact h.isWord
  | neg h =>
    refine ⟨by simp, List.forall_mem_cons.mpr ⟨by decide, h.isWord.not_delimiter⟩⟩

theorem decimal_repr (n : Nat) : Decimal n.repr.toList n := by
  rw [decimal_iff, Nat.repr_eq_ofList_toDigits, String.toList_ofList]
  refine ⟨?_, ?_⟩
  · simp [Nat.toDigits_ne_nil]
    exact fun c hc => Nat.isDigit_of_mem_toDigits (by decide) (by decide) hc
  · have h := Nat.ofDigitChars_ten_toDigits (n := n)
    rwa [Nat.ofDigitChars_eq_foldl] at h

/-- The decimal text of an integer is a numeral. -/
theorem numeral_repr (n : Int) : Numeral n.repr.toList n := by
  cases n with
  | ofNat n => exact .nonneg (decimal_repr n)
  | negSucc n =>
    have h : Numeral ('-' :: (n + 1).repr.toList) (-(n + 1 : Nat)) := .neg (decimal_repr (n + 1))
    rwa [show Int.repr (.negSucc n) = "-" ++ (n + 1).repr from rfl, String.toList_append]

end Reader

/-! ## Layouts -/

/-- The name is that of an atom: as a word of its own it stands neither for a boolean nor for an
integer. -/
structure LegalAtom (name : String) : Prop where
  isWord : Token.IsWord name.toList
  ne_true : name ≠ "true"
  ne_false : name ≠ "false"
  not_numeral : ∀ n, ¬Reader.Numeral name.toList n

namespace Expr

/-- All atoms in the expression are legal. -/
inductive Legal : Expr → Prop where
  | leaf : (∀ name, l = .atom name → LegalAtom name) → Legal (leaf l)
  | list : (∀ e ∈ items, Legal e) → Legal (list items)

/-- What stands between two elements: blanks, of which there are some unless one of the two is a
list. -/
def Separates (gap : List Char) (e e' : Expr) : Prop :=
  Token.Blanks gap ∧ (gap ≠ [] ∨ e.items?.isSome ∨ e'.items?.isSome)

mutual

/-- `Layout e text`: the text writes the expression. -/
inductive Layout : Expr → List Char → Prop where
  | int {n : Word} : Reader.Numeral text n.toInt → Layout (.int n) text
  | true : Layout (.bool true) "true".toList
  | false : Layout (.bool false) "false".toList
  | str (s : String) : Layout (.str s) ('"' :: (s.toList.flatMap Token.escape ++ ['"']))
  | atom (name : String) : Layout (.atom name) name.toList
  | list : Token.Blanks before → LayoutAll es text → Token.Blanks after →
    Layout (.list es) ('(' :: (before ++ (text ++ (after ++ [')']))))

/-- `LayoutAll es text`: the text writes the expressions, one after the other. -/
inductive LayoutAll : List Expr → List Char → Prop where
  | nil : LayoutAll [] []
  | single : Layout e text → LayoutAll [e] text
  | cons : Layout e text → Separates gap e e' → LayoutAll (e' :: es) rest →
    LayoutAll (e :: e' :: es) (text ++ (gap ++ rest))

end

variable {e e' : Expr} {es : List Expr} {text gap rest : List Char}

theorem LayoutAll.head_list (h : LayoutAll (e :: es) text) (he : e.items?.isSome) :
    ∃ rest, text = '(' :: rest := by
  have hlist {text : List Char} (h : Layout e text) : ∃ rest, text = '(' :: rest := by
    cases h with
    | list => exact ⟨_, rfl⟩
    | int | true | false | str | atom => cases he
  cases h with
  | single h => exact hlist h
  | cons h =>
    obtain ⟨rest, rfl⟩ := hlist h
    exact ⟨_, rfl⟩

/-- What separates two elements delimits the first of them, if that is no list. -/
theorem Separates.delimits (hgap : Separates gap e e') (htail : LayoutAll (e' :: es) text)
    (rest : List Char) :
    e.items?.isSome ∨ ∀ c ∈ (gap ++ (text ++ rest)).head?, Token.isDelimiter c := by
  obtain ⟨hblank, hgap⟩ := hgap
  cases gap with
  | cons c gap =>
    have hc : Token.isDelimiter c := by simp [Token.isDelimiter, hblank c List.mem_cons_self]
    exact .inr (by simpa using hc)
  | nil =>
    refine (hgap.resolve_left fun hne => hne rfl).imp_right fun he' => ?_
    obtain ⟨rest', rfl⟩ := htail.head_list he'
    simp [Token.isDelimiter]

/-- In front of what delimits it, the text has tokens that derive the expression. A list needs no
delimiter. -/
def Readable (e : Expr) (text : List Char) : Prop :=
  ∃ ks, Reader.Derives ks e ∧ ∀ rest ks',
    (e.items?.isSome ∨ ∀ c ∈ rest.head?, Token.isDelimiter c) → Token.Lexes rest ks' →
      Token.Lexes (text ++ rest) (ks ++ ks')

theorem readable_word {l : Literal} (hword : Token.IsWord text)
    (hl : Reader.Denotes (String.ofList text) l) : Readable (leaf l) text :=
  ⟨_, .atom hl, fun _ _ hrest h => Token.lexes_word hword (hrest.resolve_left nofun) h⟩

mutual

theorem Layout.readable {e : Expr} {text : List Char} (h : Layout e text) (he : e.Legal) :
    Readable e text := by
  cases h with
  | int h => exact readable_word h.isWord (.int (by rwa [String.toList_ofList]))
  | true => exact readable_word Token.isWord_true (by rw [String.ofList_toList]; exact .true)
  | false => exact readable_word Token.isWord_false (by rw [String.ofList_toList]; exact .false)
  | atom name =>
    cases he with
    | leaf hname =>
      have hlegal := hname name rfl
      refine readable_word hlegal.isWord ?_
      rw [String.ofList_toList]
      exact .atom hlegal.ne_true hlegal.ne_false hlegal.not_numeral
  | str s =>
    refine ⟨_, .str s, fun rest ks' _ hlexes => ?_⟩
    have hstr := Token.Lexes.str (Token.unescapes_escape s.toList) hlexes
    rw [String.ofList_toList] at hstr
    simpa using hstr
  | list hbefore hes hafter =>
    cases he with
    | list hitems =>
      obtain ⟨ks, hks, hlexes⟩ := hes.lexes hitems
      refine ⟨_, .list hks, fun rest ks' _ h => ?_⟩
      have hclose := Token.lexes_blanks hafter (.closeParen h)
      have hinner :=
        hlexes _ _ (Token.head?_blanks_append hafter (by simp [Token.isDelimiter])) hclose
      simpa using Token.Lexes.openParen (Token.lexes_blanks hbefore hinner)

theorem LayoutAll.lexes {es : List Expr} {text : List Char} (h : LayoutAll es text)
    (hes : ∀ e ∈ es, e.Legal) :
    ∃ ks, Reader.DerivesAll ks es ∧ ∀ rest ks', (∀ c ∈ rest.head?, Token.isDelimiter c) →
      Token.Lexes rest ks' → Token.Lexes (text ++ rest) (ks ++ ks') := by
  cases h with
  | nil => exact ⟨[], .nil, fun _ _ _ h => h⟩
  | single h =>
    obtain ⟨ks, hks, hlexes⟩ := h.readable (hes _ List.mem_cons_self)
    exact ⟨ks, .singleton hks, fun rest ks' hrest => hlexes rest ks' (.inr hrest)⟩
  | cons h hgap htail =>
    obtain ⟨he, hes⟩ := List.forall_mem_cons.mp hes
    obtain ⟨ks, hks, hlexes⟩ := h.readable he
    obtain ⟨ks', hks', hlexes'⟩ := htail.lexes hes
    refine ⟨_, .cons hks hks', fun rest ks'' hrest hlexes'' => ?_⟩
    have hmore := Token.lexes_blanks hgap.1 (hlexes' rest ks'' hrest hlexes'')
    rw [List.append_assoc, List.append_assoc, List.append_assoc]
    exact hlexes _ _ (hgap.delimits htail rest) hmore

end

mutual

/-- An expression that tokens derive has legal atoms, if theirs are words. -/
theorem legal_of_derives {ks : List Token.Kind} {e : Expr} (h : Reader.Derives ks e)
    (hwords : ∀ name, .atom name ∈ ks → Token.IsWord name.toList) : e.Legal := by
  cases h with
  | str => exact .leaf nofun
  | @atom text l hl =>
    refine .leaf fun name hname => ?_
    cases hl with
    | true | false | int => cases hname
    | atom htrue hfalse hnumeral =>
      cases hname
      exact ⟨hwords _ List.mem_cons_self, htrue, hfalse, hnumeral⟩
  | list hes =>
    exact .list (legal_of_derivesAll hes fun name hname => hwords name (by simp [hname]))

theorem legal_of_derivesAll {ks : List Token.Kind} {es : List Expr} (h : Reader.DerivesAll ks es)
    (hwords : ∀ name, .atom name ∈ ks → Token.IsWord name.toList) : ∀ e ∈ es, e.Legal := by
  cases h with
  | nil => exact nofun
  | cons he hes =>
    refine List.forall_mem_cons.mpr ⟨legal_of_derives he ?_, legal_of_derivesAll hes ?_⟩
    · exact fun name hname => hwords name (List.mem_append_left _ hname)
    · exact fun name hname => hwords name (List.mem_append_right _ hname)

end

end Expr

/-! ## One layout of every expression -/

def Literal.written : Literal → List Char
  | .int n => n.toInt.repr.toList
  | .bool true => "true".toList
  | .bool false => "false".toList
  | .str s => '"' :: (s.toList.flatMap Token.escape ++ ['"'])
  | .atom name => name.toList

namespace Expr

mutual

/-- The expression on one line, with single spaces between the elements of a list. -/
def written : Expr → List Char
  | leaf l => l.written
  | list es => '(' :: (writtenAll es ++ [')'])

def writtenAll : List Expr → List Char
  | [] => []
  | [e] => written e
  | e :: e' :: es => written e ++ ([' '] ++ writtenAll (e' :: es))

end

theorem layout_leaf (l : Literal) : Layout (leaf l) l.written :=
  match l with
  | .int n => .int (Reader.numeral_repr n.toInt)
  | .bool true => .true
  | .bool false => .false
  | .str s => .str s
  | .atom name => .atom name

mutual

theorem layout_written (e : Expr) : Layout e e.written := by
  cases e with
  | leaf l =>
    rw [written]
    exact layout_leaf l
  | list es =>
    rw [written]
    have hnone : Token.Blanks [] := nofun
    exact .list hnone (layoutAll_writtenAll es) hnone

theorem layoutAll_writtenAll (es : List Expr) : LayoutAll es (writtenAll es) := by
  match es with
  | [] =>
    rw [writtenAll]
    exact .nil
  | [e] =>
    rw [writtenAll]
    exact .single (layout_written e)
  | e :: e' :: es =>
    rw [writtenAll]
    exact .cons (layout_written e) ⟨by simp [Token.Blanks, Token.isBlank], .inl nofun⟩
      (layoutAll_writtenAll (e' :: es))

end

theorem parse_of_layout {before after : List Char} (he : e.Legal) (h : Layout e text)
    (hbefore : Token.Blanks before) (hafter : Token.Blanks after) :
    parse (String.ofList (before ++ (text ++ after))) = .ok e := by
  obtain ⟨ks, hks, hlexes⟩ := h.readable he
  have hend : Token.Lexes after [] := by simpa using Token.lexes_blanks hafter .nil
  have hnil : ∀ c ∈ ([] : List Char).head?, Token.isDelimiter c := by simp
  have hdelimits : ∀ c ∈ after.head?, Token.isDelimiter c := by
    simpa using Token.head?_blanks_append hafter hnil
  refine parse_eq_ok_iff.mpr ⟨ks, ?_, hks⟩
  rw [String.toList_ofList]
  simpa using Token.lexes_blanks hbefore (hlexes after [] (.inr hdelimits) hend)

theorem legal_of_parse {source : String} (h : parse source = .ok e) : e.Legal := by
  obtain ⟨ks, hlexes, hks⟩ := parse_eq_ok_iff.mp h
  exact legal_of_derives hks fun name => Token.isWord_of_lexes hlexes

/-- Every layout of an expression with legal atoms, between any blanks, is read as the expression.
Conversely, what any source is read as has legal atoms, so it is what its own layouts are read
as. -/
theorem parse_layout :
    (∀ e before text after, e.Legal → Layout e text → Token.Blanks before → Token.Blanks after →
      parse (String.ofList (before ++ (text ++ after))) = .ok e) ∧
    (∀ source e, parse source = .ok e →
      e.Legal ∧ Layout e e.written ∧ parse (String.ofList e.written) = .ok e) := by
  refine ⟨fun e before text after => parse_of_layout, fun source e h => ?_⟩
  have hlegal := legal_of_parse h
  have hnone : Token.Blanks [] := nofun
  refine ⟨hlegal, layout_written e, ?_⟩
  simpa using parse_of_layout hlegal (layout_written e) hnone hnone

/-- A call with a string that needs escapes, the least integer and the unit. No blank is needed next
to a parenthesis, and any may stand between elements. -/
theorem parse_layout_call :
    parse "\t(say \n\"a\\\"\\\\\"( -9223372036854775808)())\r\n" =
      .ok (call "say" [.str "a\"\\", list [.int Int64.minValue], unit]) := by
  have hsay : LegalAtom "say" :=
    ⟨⟨by simp, by simp [Token.isDelimiter, Token.isBlank]⟩, by simp, by simp,
      Reader.integer?_eq_none_iff.mp (by decide)⟩
  have hlegal : Legal (call "say" [.str "a\"\\", list [.int Int64.minValue], unit]) := by
    refine .list (List.forall_mem_cons.mpr ⟨.leaf fun name h => ?_, ?_⟩)
    · cases h
      exact hsay
    · simp only [List.forall_mem_cons]
      exact ⟨.leaf nofun, .list (List.forall_mem_singleton.mpr (.leaf nofun)), .list nofun, nofun⟩
  have hnone : Token.Blanks [] := nofun
  have hspace : Token.Blanks [' '] := by simp [Token.Blanks, Token.isBlank]
  have hline : Token.Blanks [' ', '\n'] := by simp [Token.Blanks, Token.isBlank]
  have hint : Layout (.int Int64.minValue) "-9223372036854775808".toList :=
    .int (Reader.integer?_eq_some_iff.mp (by decide))
  have htail : LayoutAll [list [.int Int64.minValue], unit] _ :=
    .cons (.list hspace (.single hint) hnone) ⟨hnone, .inr (.inl rfl)⟩
      (.single (.list hnone .nil hnone))
  have hlayout : Layout (call "say" [.str "a\"\\", list [.int Int64.minValue], unit]) _ :=
    .list hnone (.cons (.atom "say") ⟨hline, .inl nofun⟩
      (.cons (.str "a\"\\") ⟨hnone, .inr (.inr rfl)⟩ htail)) hnone
  exact parse_layout.1 _ ['\t'] _ ['\r', '\n'] hlegal hlayout
    (by simp [Token.Blanks, Token.isBlank]) (by simp [Token.Blanks, Token.isBlank])

end Expr

end Curried
