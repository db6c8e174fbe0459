import DecisionLang.Proofs.Layout.Relocated
import DecisionLang.Proofs.Layout.Shifted
import DecisionLang.Proofs.Reading.Expression

/-!
# Expressions read in another place

Two readings mirror each other if they use up the same numbers and come to the same, but for the
references: `Numbered.Mirrors` follows both at once, one rule for each way readings are put
together. Two lines mirror each other if one has the tokens of the other, in columns that references
are moved to. Main statement: a grammar reads the same from both (`Grammar.mirrors_read`).
-/

namespace DecisionLang

/-- A line with the same tokens in other columns. Moving the references of the first line gives
those of the second. -/
structure Line.Mirrors (move : Reference → Reference) (columns : Nat → Nat) (line line' : Line) :
    Prop where
  tokens : line'.tokens = line.tokens.map (Token.shift columns)
  ne_nil : line.tokens ≠ []
  reference (column : Nat) : line'.reference (columns column) = move (line.reference column)

namespace Numbered

/-- What a reading comes to, in another place. -/
def relocateOutcome {α β : Type} (move : Reference → Reference) (image : α → β) :
    Except Diagnostic α → Except Diagnostic β
  | .ok result => .ok (image result)
  | .error diagnostic => .error (diagnostic.relocate move)

/-- Two readings use up the same numbers and come to the same, in different places. -/
def Mirrors {α β : Type} (move : Reference → Reference) (image : α → β) (reading : Numbered α)
    (reading' : Numbered β) : Prop :=
  ∀ next, (reading'.run.run next : Except Diagnostic β × Nat) =
    (relocateOutcome move image (reading.run.run next).1, (reading.run.run next).2)

variable {α β γ δ : Type} {move : Reference → Reference}

theorem mirrors_pure {image : α → β} {value : α} {value' : β} (h : value' = image value) :
    Mirrors move image (pure value) (pure value') := by
  subst h
  exact fun _ => rfl

theorem mirrors_throw {image : α → β} {diagnostic diagnostic' : Diagnostic}
    (h : diagnostic' = diagnostic.relocate move) :
    Mirrors move image (throw diagnostic) (throw diagnostic') := by
  subst h
  exact fun _ => rfl

theorem mirrors_bind {image : α → β} {image' : γ → δ} {reading : Numbered α}
    {reading' : Numbered β} {rest : α → Numbered γ} {rest' : β → Numbered δ}
    (h : Mirrors move image reading reading')
    (hrest : ∀ value, Mirrors move image' (rest value) (rest' (image value))) :
    Mirrors move image' (reading >>= rest) (reading' >>= rest') := by
  intro next
  rw [run_bind, run_bind, h next]
  rcases reading.run.run next with ⟨diagnostic | value, between⟩
  · rfl
  · exact hrest value between

theorem mirrors_map {image : α → β} {image' : γ → δ} {reading : Numbered α}
    {reading' : Numbered β} {f : α → γ} {f' : β → δ} (h : Mirrors move image reading reading')
    (hf : ∀ value, f' (image value) = image' (f value)) :
    Mirrors move image' (f <$> reading) (f' <$> reading') := by
  rw [map_eq_pure_bind, map_eq_pure_bind]
  exact mirrors_bind h fun value => mirrors_pure (hf value)

theorem mirrors_ofExcept {image : α → β} {outcome : Except Diagnostic α}
    {outcome' : Except Diagnostic β} (h : outcome' = relocateOutcome move image outcome) :
    Mirrors move image (MonadExcept.ofExcept outcome) (MonadExcept.ofExcept outcome') := by
  subst h
  cases outcome with
  | error diagnostic => exact mirrors_throw rfl
  | ok value => exact mirrors_pure rfl

theorem mirrors_mapM {image : α → β} {f : γ → δ} {read : γ → Numbered α}
    {read' : δ → Numbered β} (items : List γ)
    (h : ∀ item ∈ items, Mirrors move image (read item) (read' (f item))) :
    Mirrors move (List.map image) (items.mapM read) ((items.map f).mapM read') := by
  induction items with
  | nil => exact mirrors_pure rfl
  | cons item items ih =>
    rw [List.map_cons, List.mapM_cons, List.mapM_cons]
    apply mirrors_bind (h item List.mem_cons_self)
    intro result
    exact mirrors_bind (ih fun other hother => h other (List.mem_cons_of_mem _ hother))
      fun results => mirrors_pure rfl

theorem mirrors_option {image : α → β} {f : γ → δ} {read : γ → Numbered α}
    {read' : δ → Numbered β} (item? : Option γ)
    (h : ∀ item ∈ item?, Mirrors move image (read item) (read' (f item))) :
    Mirrors move (Option.map image) (item?.mapM read) ((item?.map f).mapM read') := by
  cases item? with
  | none => exact mirrors_pure rfl
  | some item => exact mirrors_map (h item rfl) fun _ => rfl

end Numbered

namespace Line.Mirrors

open Numbered

variable {α β : Type} {move : Reference → Reference} {columns : Nat → Nat} {line line' : Line}
  {image : α → β}

theorem ne_nil' (h : line.Mirrors move columns line') : line'.tokens ≠ [] := by
  rw [h.tokens]
  exact mt List.map_eq_nil_iff.1 h.ne_nil

theorem tokenReference (h : line.Mirrors move columns line') (token : Token) :
    line'.tokenReference (token.shift columns) = move (line.tokenReference token) :=
  h.reference token.column

theorem start (h : line.Mirrors move columns line') : line'.start = move line.start := by
  obtain ⟨first, rest, hfirst⟩ := List.exists_cons_of_ne_nil h.ne_nil
  have hstart : line.start = line.tokenReference first := by
    rw [Line.start, hfirst]
    rfl
  rw [hstart, ← h.tokenReference, Line.start, h.tokens, hfirst]
  rfl

theorem located (h : line.Mirrors move columns line') (fault : Fault) :
    fault.located line'.start = (fault.located line.start).relocate move := by
  rw [h.start]
  rfl

theorem mark (h : line.Mirrors move columns line') (token : Token) :
    Numbered.Mirrors move (Mark.relocate move) (Numbered.mark line token)
      (Numbered.mark line' (token.shift columns)) := by
  intro next
  change ((Except.ok (Mark.mk next (line'.tokenReference (token.shift columns))), next + 1) :
    Except Diagnostic Mark × Nat) = _
  rw [h.tokenReference]
  rfl

theorem fail (h : line.Mirrors move columns line') (token : Token) (fault : Fault) :
    Numbered.Mirrors move image (Numbered.fail line token fault)
      (Numbered.fail line' (token.shift columns) fault) := by
  apply mirrors_throw
  rw [h.tokenReference]
  rfl

theorem refuse (h : line.Mirrors move columns line') (fault : Fault) :
    Numbered.Mirrors move image (line.refuse fault) (line'.refuse fault) :=
  mirrors_throw (h.located fault)

end Line.Mirrors

/-! ### Calls -/

namespace Shape

open Numbered

variable {move : Reference → Reference} {columns : Nat → Nat} {line line' : Line}

theorem typePath?_shift (argument : List Token) :
    typePath? (argument.map (Token.shift columns)) =
      (typePath? argument).map fun pair => (pair.1.shift columns, pair.2) := by
  rcases argument with _ | ⟨token, _ | ⟨second, rest⟩⟩
  · rfl
  · simp only [List.map_cons, List.map_nil, typePath?, Token.path?_shift, Token.name?_shift]
    cases token.path? with
    | some parts => rfl
    | none => cases token.name? <;> rfl
  · rfl

theorem mirrors_columnName (h : line.Mirrors move columns line') (usage : String)
    (argument : List Token) :
    Mirrors move (ColumnName.relocate move) (columnName line usage argument)
      (columnName line' usage (argument.map (Token.shift columns))) := by
  have hfail first rest : Mirrors move (ColumnName.relocate move)
      (fail line first (.columnArgument (Token.describe (first :: rest)) usage))
      (fail line' (first.shift columns) (.columnArgument
        (Token.describe (first.shift columns :: rest.map (Token.shift columns))) usage)) := by
    rw [← List.map_cons, Token.describe_shift]
    exact h.fail first _
  rcases argument with _ | ⟨first, _ | ⟨second, rest⟩⟩
  · exact mirrors_throw (h.located _)
  · simp only [List.map_cons, List.map_nil, columnName, Token.path?_shift]
    rcases first.path? with _ | _ | ⟨table, _ | ⟨column, _ | ⟨third, more⟩⟩⟩
    · exact hfail first []
    · exact hfail first []
    · exact hfail first []
    · apply mirrors_pure
      rw [h.tokenReference]
      rfl
    · exact hfail first []
  · exact hfail first (second :: rest)

theorem mirrors_lookUp (h : line.Mirrors move columns line') (first : Token)
    (function : TableFunction) {arguments arguments' : LookUp}
    (htable : arguments'.table = arguments.table.map (Token.shift columns))
    (hdiscriminator : Option.Rel
      (fun pair pair' => Mirrors move (Expr.relocate move) pair.1 pair'.1 ∧
        pair'.2 = pair.2.map (Token.shift columns))
      arguments.discriminator arguments'.discriminator)
    (hvalue : Mirrors move (Expr.relocate move) arguments.value arguments'.value)
    (hsearch : arguments'.searchColumn = arguments.searchColumn.map (Token.shift columns))
    (hresult : arguments'.resultColumn =
      arguments.resultColumn.map (List.map (Token.shift columns))) :
    Mirrors move (Expr.relocate move) (arguments.read line first function)
      (arguments'.read line' (first.shift columns) function) := by
  obtain ⟨table, discriminator, value, searchColumn, resultColumn⟩ := arguments
  obtain ⟨table', discriminator', value', searchColumn', resultColumn'⟩ := arguments'
  dsimp only at htable hdiscriminator hvalue hsearch hresult
  subst htable hsearch hresult
  rcases table with _ | ⟨token, _ | ⟨second, rest⟩⟩
  · exact h.fail _ _
  · simp only [LookUp.read, List.map_cons, List.map_nil, Token.name?_shift]
    cases token.name? with
    | none => exact h.fail _ _
    | some table =>
      have hread : Mirrors move (Option.map (Expr.relocate move)) (discriminator.mapM Prod.fst)
          (discriminator'.mapM Prod.fst) := by
        cases hdiscriminator with
        | none => exact mirrors_pure rfl
        | some hpair => exact mirrors_map hpair.1 fun _ => rfl
      have hcolumn : Mirrors move (Option.map (ColumnName.relocate move))
          (discriminator.mapM fun pair => columnName line function.usage pair.2)
          (discriminator'.mapM fun pair => columnName line' function.usage pair.2) := by
        cases hdiscriminator with
        | none => exact mirrors_pure rfl
        | @some pair pair' hpair =>
          have hname := mirrors_columnName h function.usage pair.2
          rw [← hpair.2] at hname
          exact mirrors_map hname fun _ => rfl
      refine mirrors_bind hread fun discriminator => mirrors_bind hvalue fun value => ?_
      refine mirrors_bind hcolumn fun discriminatorColumn => ?_
      refine mirrors_bind (mirrors_columnName h _ _) fun searchColumn => ?_
      refine mirrors_bind (mirrors_option _ fun _ _ => mirrors_columnName h _ _)
        fun resultColumn => ?_
      refine mirrors_bind (h.mark first) fun mark => mirrors_pure ?_
      rw [Expr.relocate, h.tokenReference, Expr.relocate?_eq]
  · exact h.fail _ _

theorem mirrors_readArgument (h : line.Mirrors move columns line') (first : Token)
    (tokens argument : List Token) {recur recur' : Numbered Expr}
    (hrecur : Mirrors move (Expr.relocate move) recur recur') :
    Mirrors move (Expr.relocate move) (readArgument line first tokens argument recur)
      (readArgument line' (first.shift columns) (tokens.map (Token.shift columns))
        (argument.map (Token.shift columns)) recur') := by
  rw [readArgument, readArgument, Token.describe_shift, List.isEmpty_map]
  split
  · exact h.fail _ _
  · exact hrecur

variable {arguments : List (List Token)}
  {recur : (part : List Token) → part ∈ arguments → Numbered Expr}
  {recur' : (part : List Token) → part ∈ arguments.map (List.map (Token.shift columns)) →
    Numbered Expr}

theorem mirrors_readLookUp (h : line.Mirrors move columns line') (first : Token)
    (tokens : List Token) (function : TableFunction)
    (hrecur : ∀ part hpart hpart', Mirrors move (Expr.relocate move) (recur part hpart)
      (recur' (part.map (Token.shift columns)) hpart')) :
    Mirrors move (Expr.relocate move) (readLookUp line first tokens function arguments recur)
      (readLookUp line' (first.shift columns) (tokens.map (Token.shift columns)) function
        (arguments.map (List.map (Token.shift columns))) recur') := by
  have hargument part hpart hpart' := mirrors_readArgument h first tokens part
    (hrecur part hpart hpart')
  rcases arguments with _ | ⟨table, _ | ⟨second, _ | ⟨third, _ | ⟨fourth, _ | ⟨fifth, _ |
    ⟨sixth, _ | ⟨seventh, rest⟩⟩⟩⟩⟩⟩⟩
  · exact h.fail _ _
  · exact h.fail _ _
  · exact h.fail _ _
  · cases function with
    | lookUpRow =>
      exact mirrors_lookUp h first _ rfl .none (hargument second _ _) rfl rfl
    | lookUp | lookUpBy | lookUpRowBy => exact h.fail _ _
  · cases function with
    | lookUp =>
      exact mirrors_lookUp h first _ rfl .none (hargument second _ _) rfl rfl
    | lookUpRow | lookUpBy | lookUpRowBy => exact h.fail _ _
  · cases function with
    | lookUpRowBy =>
      exact mirrors_lookUp h first _ rfl (.some ⟨hargument second _ _, rfl⟩)
        (hargument third _ _) rfl rfl
    | lookUp | lookUpRow | lookUpBy => exact h.fail _ _
  · cases function with
    | lookUpBy =>
      exact mirrors_lookUp h first _ rfl (.some ⟨hargument second _ _, rfl⟩)
        (hargument third _ _) rfl rfl
    | lookUp | lookUpRow | lookUpRowBy => exact h.fail _ _
  · exact h.fail _ _

theorem mirrors_readMake (h : line.Mirrors move columns line') (first : Token) (making : Making)
    (arguments : List (List Token)) :
    Mirrors move (Expr.relocate move) (readMake line first making arguments)
      (readMake line' (first.shift columns) making
        (arguments.map (List.map (Token.shift columns)))) := by
  rcases arguments with _ | ⟨argument, _ | ⟨second, rest⟩⟩
  · exact h.fail _ _
  · simp only [readMake, List.map_cons, List.map_nil, typePath?_shift]
    cases typePath? argument with
    | none => exact h.fail _ _
    | some pair =>
      refine mirrors_bind (h.mark first) fun mark => mirrors_pure ?_
      rw [Expr.relocate, h.tokenReference]
  · exact h.fail _ _

theorem mirrors_readCall {arguments' : List (List Token)}
    {recur' : (part : List Token) → part ∈ arguments' → Numbered Expr}
    (h : line.Mirrors move columns line') (first : Token) (function : String) (tokens : List Token)
    (harguments : arguments' = arguments.map (List.map (Token.shift columns)))
    (hrecur : ∀ part hpart hpart', Mirrors move (Expr.relocate move) (recur part hpart)
      (recur' (part.map (Token.shift columns)) hpart')) :
    Mirrors move (Expr.relocate move) (readCall line first function tokens arguments recur)
      (readCall line' (first.shift columns) function (tokens.map (Token.shift columns)) arguments'
        recur') := by
  subst harguments
  have hargument part hpart hpart' := mirrors_readArgument h first tokens part
    (hrecur part hpart hpart')
  unfold readCall
  split
  · exact mirrors_readMake h first .new arguments
  · exact mirrors_readMake h first .fill arguments
  · rcases arguments with _ | ⟨argument, _ | ⟨second, rest⟩⟩
    · exact h.fail _ _
    · refine mirrors_bind (hargument argument _ _) fun object => ?_
      exact mirrors_bind (h.mark first) fun mark => mirrors_pure rfl
    · exact h.fail _ _
  · split
    · exact mirrors_readLookUp h first tokens _ hrecur
    · rw [List.attach_map]
      refine mirrors_bind (mirrors_mapM _ fun part _ => hargument part.1 part.2 _) fun values => ?_
      refine mirrors_bind (h.mark first) fun mark => mirrors_pure ?_
      rw [Expr.relocate, Expr.relocateAll_eq]

/-! ### Shapes -/

theorem relocate_branchOf (kind : Branch) (mark : Mark) (subject : Expr) :
    (branchOf kind mark subject).relocate move =
      branchOf kind (mark.relocate move) (subject.relocate move) := by
  cases kind <;> rfl

theorem relocate_fallbackOf (kind : Fallback) (mark : Mark) :
    (fallbackOf kind mark).relocate move = fallbackOf kind (mark.relocate move) := by
  cases kind <;> rfl

theorem relocate_targetOf (target : Target) (mark : Mark) :
    (targetOf target mark).relocate move = targetOf target (mark.relocate move) := by
  cases target <;> rfl

theorem mirrors_read (h : line.Mirrors move columns line') (shape : Shape)
    {recur : (part : List Token) → part ∈ shape.parts → Numbered Expr}
    {recur' : (part : List Token) → part ∈ (shape.shift columns).parts → Numbered Expr}
    (hrecur : ∀ part hpart hpart', Mirrors move (Expr.relocate move) (recur part hpart)
      (recur' (part.map (Token.shift columns)) hpart')) :
    Mirrors move (Expr.relocate move) (shape.read line recur)
      ((shape.shift columns).read line' recur') := by
  have hmarked {first : Token} {build build' : Mark → Expr}
      (hbuild : ∀ mark, build' (mark.relocate move) = (build mark).relocate move) :
      Mirrors move (Expr.relocate move) (do return build (← mark line first))
        (do return build' (← mark line' (first.shift columns))) :=
    mirrors_bind (h.mark first) fun mark => mirrors_pure (hbuild mark)
  cases shape with
  | branch kind first subject =>
    simp only [Shape.shift, Shape.read, List.isEmpty_map]
    split
    · exact h.fail _ _
    · exact mirrors_bind (hrecur subject _ _) fun subject =>
        hmarked fun mark => (relocate_branchOf kind mark subject).symm
  | fallback kind first rest =>
    cases rest with
    | nil => exact hmarked fun mark => (relocate_fallbackOf kind mark).symm
    | cons extra rest => exact h.fail _ _
  | spreadAssignment first sign invoked =>
    cases invoked with
    | nil => exact h.fail _ _
    | cons start rest =>
      refine mirrors_bind (hrecur (start :: rest) _ _) fun expression => ?_
      cases expression with
      | call callMark function arguments => exact hmarked fun mark => rfl
      | _ => exact h.fail _ _
  | declaration first type declared => exact hmarked fun mark => rfl
  | declarationWith first type declared sign value =>
    simp only [Shape.shift, Shape.read, List.isEmpty_map]
    split
    · exact h.fail _ _
    · exact mirrors_bind (hrecur value _ _) fun value => hmarked fun mark => rfl
  | assignment first target sign value =>
    simp only [Shape.shift, Shape.read, List.isEmpty_map]
    split
    · exact h.fail _ _
    · refine mirrors_bind (h.mark first) fun targetMark => ?_
      refine mirrors_bind (hrecur value _ _) fun value => hmarked fun mark => ?_
      rw [Expr.relocate, relocate_targetOf]
  | binary first left sign operator right =>
    simp only [Shape.shift, Shape.read, List.isEmpty_map]
    split
    · exact h.fail _ _
    · split
      · exact h.fail _ _
      · refine mirrors_bind (hrecur left _ _) fun left => ?_
        exact mirrors_bind (hrecur right _ _) fun right => hmarked fun mark => rfl
  | unplaced first tokens =>
    simp only [Shape.shift, Shape.read, Token.describe_shift]
    exact h.fail _ _
  | group first inner =>
    simp only [Shape.shift, Shape.read, List.isEmpty_map]
    split
    · exact h.fail _ _
    · exact mirrors_bind (hrecur inner _ _) fun inner => hmarked fun mark => rfl
  | indexed first table bracket index =>
    simp only [Shape.shift, Shape.read, List.isEmpty_map]
    split
    · exact h.fail _ _
    · exact mirrors_bind (hrecur index _ _) fun index => hmarked fun mark => rfl
  | call first function tokens inner =>
    exact mirrors_readCall h first function tokens (Token.arguments_shift columns inner) hrecur
  | spread | path | literal | name => exact hmarked fun mark => rfl

end Shape

namespace Grammar

variable {grammar : Grammar} {first : Token} {rest : List Token} {move : Reference → Reference}
  {columns : Nat → Nat} {line line' : Line}

theorem read_of_recognize?_eq_none (h : grammar.recognize? (first :: rest) = none) :
    grammar.read line (first :: rest) =
      Numbered.fail line first (.invalidExpression (Token.describe (first :: rest))) := by
  rw [read]
  split
  · rfl
  · next hshape =>
    rw [h] at hshape
    cases hshape

/-- Tokens are read as the same expression from a line in another place. -/
theorem mirrors_read (h : line.Mirrors move columns line') (grammar : Grammar)
    (tokens : List Token) :
    Numbered.Mirrors move (Expr.relocate move) (grammar.read line tokens)
      (grammar.read line' (tokens.map (Token.shift columns))) := by
  induction hlength : tokens.length using Nat.strongRecOn generalizing tokens with
  | ind length ih =>
    subst hlength
    cases tokens with
    | nil =>
      rw [read, List.map_nil, read]
      exact Numbered.mirrors_throw (h.located _)
    | cons first rest =>
      have hshift := grammar.recognize?_shift columns (first :: rest)
      cases hshape : grammar.recognize? (first :: rest) with
      | none =>
        rw [hshape] at hshift
        rw [read_of_recognize?_eq_none hshape, List.map_cons, read_of_recognize?_eq_none hshift,
          ← List.map_cons, Token.describe_shift]
        exact h.fail _ _
      | some shape =>
        rw [hshape] at hshift
        rw [read_of_recognize? (List.cons_ne_nil _ _) hshape, List.map_cons,
          read_of_recognize? (List.cons_ne_nil _ _) hshift]
        apply Shape.mirrors_read h
        intro part hpart _
        exact ih part.length (length_lt_of_recognize? hshape hpart) part rfl

theorem mirrors_readLine (h : line.Mirrors move columns line') (grammar : Grammar) :
    Numbered.Mirrors move (Expr.relocate move) (grammar.readLine line)
      (grammar.readLine line') := by
  rw [readLine, readLine, h.tokens]
  exact mirrors_read h grammar line.tokens

end Grammar

end DecisionLang
