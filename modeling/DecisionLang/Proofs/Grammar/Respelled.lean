import DecisionLang.Proofs.Grammar.Legible
import DecisionLang.Proofs.Token.Spelled

/-!
# Texts of legible expressions

The text of a legible expression spells the tokens of the expression (`Expr.Legible.isSpelled`), so
it is scanned as these.
-/

namespace DecisionLang

/-! ### Names and types -/

theorem NamePath.text_kind (path : NamePath) : path.kind.text = path.text := by
  obtain ⟨root, members⟩ := path
  cases members with
  | nil => rfl
  | cons member members => rfl

theorem WrittenType.text_kind (type : WrittenType) : type.kind.text = type.text := by
  cases type with
  | named path => exact path.text_kind
  | _ => rfl

theorem NamePath.isNegative_kind (path : NamePath) : path.kind.isNegative = false := by
  obtain ⟨root, _ | _⟩ := path <;> rfl

theorem WrittenType.isNegative_kind (type : WrittenType) : type.kind.isNegative = false := by
  cases type with
  | named path => exact path.isNegative_kind
  | _ => rfl

theorem ColumnName.text_kind (column : ColumnName) : column.kind.text = column.text := rfl

/-! ### Spelling parts of a text -/

theorem forall₂_toList {α β γ : Type} {related : β → γ → Prop} {item? : Option α} {left : α → β}
    {right : α → γ} (h : ∀ item ∈ item?, related (left item) (right item)) :
    List.Forall₂ related (item?.map left).toList (item?.map right).toList := by
  cases item? with
  | none => exact .nil
  | some item => exact .cons (h item rfl) .nil

namespace Token

variable {previous : Option TokenKind} {text others : List Char} {kinds : List TokenKind}

theorem allowsSign_of_unsigned {kind : TokenKind} (h : kind.isNegative = false) :
    kind.isNegative = true → allowsSign previous = true :=
  fun hsign => absurd (h.symm.trans hsign) Bool.false_ne_true

theorem Spells.operator (sign : Operator)
    (hends : (TokenKind.operator sign).isMark = true ∨ Ends text)
    (h : Spells (some (.operator sign)) text kinds) :
    Spells previous (sign.spelling.toList ++ text) (.operator sign :: kinds) :=
  .token (TokenKind.rescans_operator sign) (allowsSign_of_unsigned rfl) hends h

/-- An operator between spaces. -/
theorem Spells.spaced (sign : Operator) (h : Spells (some (.operator sign)) text kinds) :
    Spells previous (' ' :: (sign.spelling.toList ++ ' ' :: text)) (.operator sign :: kinds) :=
  .space (.operator sign (.inr (ends_cons rfl)) (.space h))

theorem Spells.single {kind : TokenKind} (hkind : kind.Rescans)
    (hsign : kind.isNegative = true → allowsSign previous = true) :
    Spells previous kind.text.toList [kind] := by
  simpa using Spells.token hkind hsign (.inr ends_nil) .nil

theorem Spells.before {kind : TokenKind} (hkind : kind.Rescans)
    (hsign : kind.isNegative = true → allowsSign previous = true)
    (h : Spells (some kind) text kinds) :
    Spells previous (kind.text.toList ++ ' ' :: text) (kind :: kinds) :=
  .token hkind hsign (.inr (ends_cons rfl)) (.space h)

/-- A text spells tokens of these kinds wherever a sign can stand. -/
def SpelledAs (text : List Char) (kinds : List TokenKind) : Prop :=
  ∀ previous, allowsSign previous = true → Spells previous text kinds

/-- What stands in brackets may start with a sign. -/
theorem SpelledAs.enclosed (opening closing : Operator)
    (hopening : (TokenKind.operator opening).isMark = true) (hsign : opening.closes = false)
    (hends : Ends closing.spelling.toList) (h : SpelledAs text kinds) :
    Spells previous (opening.spelling.toList ++ (text ++ closing.spelling.toList))
      (.operator opening :: (kinds ++ [.operator closing])) := by
  refine .operator opening (.inl hopening) ((h _ (by simp [allowsSign, hsign])).append hends ?_)
  intro previous
  exact .single (TokenKind.rescans_operator closing) (allowsSign_of_unsigned rfl)

theorem SpelledAs.intercalate {texts : List (List Char)} {arguments : List (List TokenKind)}
    (h : List.Forall₂ SpelledAs texts arguments) :
    SpelledAs ([',', ' '].intercalate texts)
      ([.operator .argumentSeparator].intercalate arguments) := by
  induction h with
  | nil => exact fun _ _ => .nil
  | cons hhead htail ih =>
    cases htail with
    | nil => simpa using hhead
    | cons hsecond htail =>
      intro previous hsign
      rw [List.intercalate_cons_cons, List.intercalate_cons_cons, List.append_assoc,
        List.append_assoc]
      refine (hhead previous hsign).append (ends_cons rfl) fun previous => ?_
      exact .operator .argumentSeparator (.inl rfl) (.space (ih _ rfl))

end Token

namespace Expr

open Token

variable {kinds : List TokenKind}

theorem spelledAs_token {kind : TokenKind} {text : String} (htext : kind.text = text)
    (hnegative : kind.isNegative = false) (h : kind.Rescans) : SpelledAs text.toList [kind] := by
  intro previous _
  rw [← htext]
  exact .single h (by simp [hnegative])

theorem spells_call {previous : Option TokenKind} {function : String} {texts : List (List Char)}
    {arguments : List (List TokenKind)} (hfunction : (TokenKind.word function).Rescans)
    (h : List.Forall₂ SpelledAs texts arguments) :
    Spells previous (function.toList ++ '(' :: ([',', ' '].intercalate texts ++ [')']))
      (callKinds function arguments) := by
  rw [callKinds, List.cons_append, List.cons_append]
  exact .token hfunction (allowsSign_of_unsigned rfl) (.inr (ends_cons rfl))
    (SpelledAs.enclosed .openParenthesis .closeParenthesis rfl rfl (ends_cons rfl)
      (.intercalate h))

/-- The text of an expression spells its tokens; if it starts with a minus, where a sign can stand. -/
def IsSpelled (whole : Expr) : Prop :=
  ∀ previous, (whole.isNegative = true → allowsSign previous = true) →
    Spells previous whole.text.toList whole.kinds

theorem IsSpelled.spelledAs {whole : Expr} (h : whole.IsSpelled) :
    SpelledAs whole.text.toList whole.kinds := fun previous hsign => h previous fun _ => hsign

/-- Tokens of a call are its name and those of its arguments. -/
theorem rescans_callKinds {function : String} {arguments : List (List TokenKind)}
    (h : ∀ kind ∈ callKinds function arguments, kind.Rescans) :
    (TokenKind.word function).Rescans ∧
      ∀ argument ∈ arguments, ∀ kind ∈ argument, kind.Rescans := by
  refine ⟨h _ List.mem_cons_self, fun argument hargument kind hkind => h kind ?_⟩
  have hmem : kind ∈ [TokenKind.operator .argumentSeparator].intercalate arguments :=
    (isInfix_intercalate hargument).subset hkind
  simp [callKinds, hmem]

section Forms

variable {mark mark' : Mark} {left right inner target value : Expr}

theorem isSpelled_single {whole : Expr} {kind : TokenKind} (hkinds : whole.kinds = [kind])
    (htext : whole.text = kind.text) (hnegative : kind.isNegative = whole.isNegative)
    (h : ∀ kind ∈ whole.kinds, kind.Rescans) : whole.IsSpelled := by
  intro previous hsign
  rw [hkinds, htext]
  exact .single (h kind (by simp [hkinds])) (hnegative ▸ hsign)

theorem isSpelled_combined {operator : Operator} (hoperator : operator.isBinary = true)
    (hleft : left.IsSpelled) (hright : right.IsSpelled) :
    (group mark (binary mark' left operator right)).IsSpelled := by
  intro previous _
  have htext : (group mark (binary mark' left operator right)).text.toList =
      '(' :: ((left.text.toList ++ ' ' :: (operator.spelling.toList ++ ' ' :: right.text.toList)) ++
        [')']) := by
    simp [text, isBinary, toString]
  have hsign : allowsSign (some (.operator operator)) = true := by
    cases operator <;> first | rfl | cases hoperator
  rw [htext]
  refine SpelledAs.enclosed .openParenthesis .closeParenthesis rfl rfl (ends_cons rfl) ?_
  intro previous hprevious
  exact (hleft.spelledAs previous hprevious).append (ends_cons rfl) fun _ =>
    .spaced operator (hright.spelledAs _ hsign)

theorem isSpelled_group (hbinary : inner.isBinary = false) (h : inner.IsSpelled) :
    (group mark inner).IsSpelled := by
  intro previous _
  have htext : (group mark inner).text.toList = '(' :: (inner.text.toList ++ [')']) := by
    simp [text, hbinary, toString]
  rw [htext]
  exact SpelledAs.enclosed .openParenthesis .closeParenthesis rfl rfl (ends_cons rfl) h.spelledAs

theorem isSpelled_indexed {table : String} (htable : (TokenKind.word table).Rescans)
    (h : inner.IsSpelled) : (indexed mark table inner).IsSpelled := by
  intro previous _
  have htext : (indexed mark table inner).text.toList =
      table.toList ++ '[' :: (inner.text.toList ++ [']']) := by
    simp [text, toString]
  rw [htext]
  exact .token htable (allowsSign_of_unsigned rfl) (.inr (ends_cons rfl))
    (SpelledAs.enclosed .openBracket .closeBracket rfl rfl (ends_cons rfl) h.spelledAs)

theorem isSpelled_assign (htarget : target.IsTarget)
    (hkinds : ∀ kind ∈ target.kinds, kind.Rescans) (h : value.IsSpelled) :
    (assign mark target value).IsSpelled := by
  intro previous _
  have hassignment {previous : Option TokenKind} :
      Spells previous (' ' :: ('=' :: ' ' :: value.text.toList))
        (.operator .assignment :: value.kinds) :=
    .spaced .assignment (h.spelledAs _ rfl)
  have htext : (assign mark target value).text.toList =
      target.text.toList ++ ' ' :: '=' :: ' ' :: value.text.toList := by
    simp [text, toString]
  rw [htext]
  cases htarget with
  | name =>
    exact .token (hkinds _ List.mem_cons_self) (allowsSign_of_unsigned rfl) (.inr (ends_cons rfl))
      hassignment
  | path =>
    exact .token (hkinds _ List.mem_cons_self) (allowsSign_of_unsigned rfl) (.inr (ends_cons rfl))
      hassignment

theorem isSpelled_of_callKinds {whole : Expr} {function : String} (texts : List String)
    {arguments : List (List TokenKind)} (hkinds : whole.kinds = callKinds function arguments)
    (htext : whole.text = function ++ "(" ++ ", ".intercalate texts ++ ")")
    (hfunction : (TokenKind.word function).Rescans)
    (h : List.Forall₂ (fun text kinds => SpelledAs text.toList kinds) texts arguments) :
    whole.IsSpelled := by
  intro previous _
  have htexts : whole.text.toList =
      function.toList ++ '(' :: ([',', ' '].intercalate (texts.map String.toList) ++ [')']) := by
    simp [htext, String.toList_intercalate]
  rw [htexts, hkinds]
  exact spells_call hfunction (List.forall₂_map_left_iff.2 h)

theorem isSpelled_call {function : String} {arguments : List Expr}
    (h : ∀ argument ∈ arguments, (∀ kind ∈ argument.kinds, kind.Rescans) → argument.IsSpelled)
    (hkinds : ∀ kind ∈ (call mark function arguments).kinds, kind.Rescans) :
    (call mark function arguments).IsSpelled := by
  rw [kinds, allKinds_eq] at hkinds
  obtain ⟨hfunction, harguments⟩ := rescans_callKinds hkinds
  have hcall : (call mark function arguments).kinds = callKinds function (arguments.map kinds) := by
    rw [kinds, allKinds_eq]
  refine isSpelled_of_callKinds (arguments.map text) hcall (by simp [text, toString]) hfunction ?_
  rw [List.forall₂_map_left_iff, List.forall₂_map_right_iff, List.forall₂_same]
  intro argument hargument
  exact (h argument hargument (harguments _ (List.mem_map_of_mem hargument))).spelledAs

theorem isSpelled_lookUp {function : TableFunction} {table : String} {reference : Reference}
    {discriminator : Option Expr} {discriminatorColumn resultColumn : Option ColumnName}
    {searchColumn : ColumnName}
    (hdiscriminator : ∀ part ∈ discriminator, (∀ kind ∈ part.kinds, kind.Rescans) → part.IsSpelled)
    (hvalue : (∀ kind ∈ value.kinds, kind.Rescans) → value.IsSpelled)
    (hkinds : ∀ kind ∈ (lookUp mark function table reference discriminator value discriminatorColumn
      searchColumn resultColumn).kinds, kind.Rescans) :
    (lookUp mark function table reference discriminator value discriminatorColumn searchColumn
      resultColumn).IsSpelled := by
  rw [kinds, kinds?_eq] at hkinds
  obtain ⟨hfunction, harguments⟩ := rescans_callKinds hkinds
  simp only [List.mem_append, List.mem_cons, Option.mem_toList, Option.map_eq_some_iff,
    List.cons_append] at harguments
  have hcolumns {column? : Option ColumnName}
      (h : ∀ column ∈ column?, (ColumnName.kind column).Rescans) :
      List.Forall₂ (fun text kinds => SpelledAs text.toList kinds)
        (column?.map ColumnName.text).toList (column?.map fun column => [column.kind]).toList :=
    forall₂_toList fun column hcolumn => spelledAs_token column.text_kind rfl (h column hcolumn)
  have htable := harguments _ (.inl rfl) _ List.mem_cons_self
  have hparts : List.Forall₂ (fun text kinds => SpelledAs text.toList kinds)
      (discriminator.map text).toList (discriminator.map kinds).toList :=
    forall₂_toList fun part hpart => (hdiscriminator part hpart
      (harguments _ (.inr (.inl (.inl ⟨part, hpart, rfl⟩))))).spelledAs
  have hfound := hvalue (harguments _ (.inr (.inl (.inr (.inl rfl)))))
  have hpairColumn := hcolumns fun column hcolumn =>
    harguments _ (.inr (.inl (.inr (.inr ⟨column, hcolumn, rfl⟩)))) _ List.mem_cons_self
  have hsearch := harguments _ (.inr (.inr (.inl rfl))) _ List.mem_cons_self
  have hresult := hcolumns fun column hcolumn =>
    harguments _ (.inr (.inr (.inr ⟨column, hcolumn, rfl⟩))) _ List.mem_cons_self
  refine isSpelled_of_callKinds _ (by rw [kinds, kinds?_eq])
    (by rw [text, texts?_eq]; rfl) hfunction ?_
  simp only [List.cons_append, List.nil_append, List.append_assoc]
  exact .cons (spelledAs_token rfl rfl htable) (List.rel_append hparts (.cons hfound.spelledAs
    (List.rel_append hpairColumn
      (.cons (spelledAs_token searchColumn.text_kind rfl hsearch) hresult))))

theorem isSpelled_declare {type : WrittenType} {declared : String} {default : Option Expr}
    (htype : type.kind.Rescans) (hdeclared : (TokenKind.word declared).Rescans)
    (h : ∀ value ∈ default, value.IsSpelled) :
    (declare mark type declared default).IsSpelled := by
  intro previous _
  have hsign : type.kind.isNegative = true → allowsSign previous = true :=
    allowsSign_of_unsigned type.isNegative_kind
  cases default with
  | none =>
    have htext : (declare mark type declared none).text.toList =
        type.kind.text.toList ++ ' ' :: declared.toList := by
      simp [text, toString, type.text_kind]
    rw [htext]
    exact .before htype hsign (.single hdeclared (allowsSign_of_unsigned rfl))
  | some value =>
    have htext : (declare mark type declared (some value)).text.toList =
        type.kind.text.toList ++ ' ' :: (declared.toList ++ ' ' :: '=' :: ' ' :: value.text.toList) := by
      simp [text, toString, type.text_kind]
    rw [htext]
    exact .before htype hsign (.token hdeclared (allowsSign_of_unsigned rfl) (.inr (ends_cons rfl))
      (.spaced .assignment ((h value rfl).spelledAs _ rfl)))

theorem isSpelled_branchOf {kind : Branch} (hkeyword : kind.keyword.kind.Rescans)
    (hsign : inner.isNegative = false) (h : inner.IsSpelled) :
    (Shape.branchOf kind mark inner).IsSpelled := by
  intro previous _
  have htext : (Shape.branchOf kind mark inner).text.toList =
      kind.keyword.kind.text.toList ++ ' ' :: inner.text.toList := by
    cases kind <;>
      simp [Shape.branchOf, text, toString, Branch.keyword, Keyword.kind, TokenKind.text,
        Keyword.spelling]
  rw [htext, Shape.kinds_branchOf]
  exact .before hkeyword (allowsSign_of_unsigned rfl) (h _ (by simp [hsign]))

theorem isSpelled_spreadAssign (h : inner.IsSpelled) : (spreadAssign mark inner).IsSpelled := by
  intro previous _
  have htext : (spreadAssign mark inner).text.toList =
      ['.', '.', '.'] ++ ' ' :: '=' :: ' ' :: inner.text.toList := by
    simp [text, toString]
  rw [htext]
  exact .operator .spread (.inr (ends_cons rfl)) (.spaced .assignment (h.spelledAs _ rfl))

end Forms

/-- The text of a legible expression spells its tokens if each is scanned again by itself. -/
theorem Legible.isSpelled {whole : Expr} (h : whole.Legible)
    (hkinds : ∀ kind ∈ whole.kinds, kind.Rescans) : whole.IsSpelled := by
  induction h with
  | literal => exact isSpelled_single rfl rfl rfl hkinds
  | name => exact isSpelled_single rfl rfl rfl hkinds
  | path => exact isSpelled_single rfl rfl rfl hkinds
  | spread => exact isSpelled_single rfl rfl rfl hkinds
  | combined hoperator hclosed hleft hright ihleft ihright =>
    simp only [kinds, List.mem_append, List.mem_cons, List.cons_append] at hkinds
    exact isSpelled_combined hoperator
      (ihleft fun kind hkind => hkinds kind (.inr (.inl (.inl hkind))))
      (ihright fun kind hkind => hkinds kind (.inr (.inl (.inr (.inr hkind)))))
  | group hinner ih =>
    simp only [kinds, List.mem_append, List.mem_cons, List.cons_append] at hkinds
    exact isSpelled_group hinner.isBinary (ih fun kind hkind => hkinds kind (.inr (.inl hkind)))
  | assign htarget hvalue ih =>
    simp only [kinds, List.mem_append, List.mem_cons] at hkinds
    exact isSpelled_assign htarget (fun kind hkind => hkinds kind (.inl hkind))
      (ih fun kind hkind => hkinds kind (.inr (.inr hkind)))
  | @declare _ _ _ default htype hdeclared hdefault ih =>
    cases default with
    | none =>
      simp only [kinds, kinds?_eq, Option.map_none, List.mem_cons] at hkinds
      exact isSpelled_declare (hkinds _ (.inl rfl)) (hkinds _ (.inr (.inl rfl))) (by rintro _ ⟨⟩)
    | some value =>
      simp only [kinds, kinds?_eq, Option.map_some, List.mem_cons] at hkinds
      refine isSpelled_declare (hkinds _ (.inl rfl)) (hkinds _ (.inr (.inl rfl))) ?_
      rintro value ⟨⟩
      exact ih value rfl fun kind hkind => hkinds kind (.inr (.inr (.inr hkind)))
  | indexed _ _ ih =>
    simp only [kinds, List.mem_append, List.mem_cons, List.cons_append] at hkinds
    exact isSpelled_indexed (hkinds _ (.inl rfl))
      (ih fun kind hkind => hkinds kind (.inr (.inr (.inl hkind))))
  | @make _ making type htype =>
    obtain ⟨hfunction, harguments⟩ := rescans_callKinds hkinds
    have htype := harguments [type.kind] (by simp) type.kind (by simp)
    exact isSpelled_of_callKinds [type.text] rfl rfl hfunction
      (.cons (spelledAs_token type.text_kind type.isNegative_kind htype) .nil)
  | @extract _ object hobject ih =>
    obtain ⟨hfunction, harguments⟩ := rescans_callKinds hkinds
    have hobject := ih (harguments object.kinds (by simp))
    exact isSpelled_of_callKinds [object.text] rfl rfl hfunction
      (.cons hobject.spelledAs .nil)
  | lookUp _ _ _ _ _ _ ihdiscriminator ih => exact isSpelled_lookUp ihdiscriminator ih hkinds
  | @call _ function arguments hfunction hobject htable harguments ih =>
    exact isSpelled_call ih hkinds
  | @branch kind _ _ hsign hsubject ih =>
    rw [Shape.kinds_branchOf, List.forall_mem_cons] at hkinds
    exact isSpelled_branchOf hkinds.1 hsign (ih hkinds.2)
  | @fallback kind => cases kind <;> exact isSpelled_single rfl rfl rfl hkinds
  | spreadAssign hfunction hobject htable harguments ih =>
    rw [kinds, List.forall_mem_cons, List.forall_mem_cons] at hkinds
    exact isSpelled_spreadAssign (isSpelled_call ih hkinds.2.2)

end Expr

end DecisionLang
