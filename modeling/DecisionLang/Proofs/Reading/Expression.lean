import DecisionLang.Proofs.Reading.Numbered

/-!
# What expressions are read from

`Grammar.Builds` has one case for each kind of expression that a grammar reads: the shape that was
recognized, what was read from its parts and the numbers used up. Everything that is true of the
expressions that are read follows from it by induction on the tokens, `Grammar.read_induction`.
-/

namespace DecisionLang

open Numbered

/-- What is read from some tokens, in terms of what is read from their parts. -/
inductive Grammar.Builds (grammar : Grammar) (line : Line)
    (reads : List Token → Nat → Expr → Nat → Prop) (tokens : List Token) (next : Nat) :
    Expr → Nat → Prop
  | branch {kind first subject decision after}
      (hshape : grammar.recognize? tokens = some (.branch kind first subject))
      (hsubject : reads subject next decision after) :
      Builds grammar line reads tokens next
        (Shape.branchOf kind ⟨after, line.tokenReference first⟩ decision) (after + 1)
  | fallback {kind first}
      (hshape : grammar.recognize? tokens = some (.fallback kind first [])) :
      Builds grammar line reads tokens next
        (Shape.fallbackOf kind ⟨next, line.tokenReference first⟩) (next + 1)
  | spreadAssignment {first sign invoked mark function arguments after}
      (hshape : grammar.recognize? tokens = some (.spreadAssignment first sign invoked))
      (hinvoked : reads invoked next (.call mark function arguments) after) :
      Builds grammar line reads tokens next
        (.spreadAssign ⟨after, line.tokenReference first⟩ (.call mark function arguments))
        (after + 1)
  | declaration {first type name}
      (hshape : grammar.recognize? tokens = some (.declaration first type name)) :
      Builds grammar line reads tokens next
        (.declare ⟨next, line.tokenReference first⟩ type name none) (next + 1)
  | declarationWith {first type name sign value default after}
      (hshape : grammar.recognize? tokens = some (.declarationWith first type name sign value))
      (hvalue : reads value next default after) :
      Builds grammar line reads tokens next
        (.declare ⟨after, line.tokenReference first⟩ type name (some default)) (after + 1)
  | assignment {first target sign value offered after}
      (hshape : grammar.recognize? tokens = some (.assignment first target sign value))
      (hvalue : reads value (next + 1) offered after) :
      Builds grammar line reads tokens next
        (.assign ⟨after, line.tokenReference first⟩
          (Shape.targetOf target ⟨next, line.tokenReference first⟩) offered) (after + 1)
  | binary {first left sign operator right leftValue between rightValue after}
      (hshape : grammar.recognize? tokens = some (.binary first left sign operator right))
      (hleft : reads left next leftValue between) (hright : reads right between rightValue after) :
      Builds grammar line reads tokens next
        (.binary ⟨after, line.tokenReference first⟩ leftValue operator rightValue) (after + 1)
  | group {first inner value after}
      (hshape : grammar.recognize? tokens = some (.group first inner))
      (hinner : reads inner next value after) :
      Builds grammar line reads tokens next (.group ⟨after, line.tokenReference first⟩ value)
        (after + 1)
  | indexed {first table bracket index value after}
      (hshape : grammar.recognize? tokens = some (.indexed first table bracket index))
      (hindex : reads index next value after) :
      Builds grammar line reads tokens next
        (.indexed ⟨after, line.tokenReference first⟩ table value) (after + 1)
  | make {first function callTokens inner making argument token type}
      (hshape : grammar.recognize? tokens = some (.call first function callTokens inner))
      (hfunction : ObjectFunction.ofSpelling? function = some (Making.function making))
      (harguments : Token.arguments inner = [argument])
      (htype : Shape.typePath? argument = some (token, type)) :
      Builds grammar line reads tokens next
        (.make ⟨next, line.tokenReference first⟩ making type (line.tokenReference token))
        (next + 1)
  | extract {first function callTokens inner argument object after}
      (hshape : grammar.recognize? tokens = some (.call first function callTokens inner))
      (hfunction : ObjectFunction.ofSpelling? function = some .extract)
      (harguments : Token.arguments inner = [argument])
      (hobject : reads argument next object after) :
      Builds grammar line reads tokens next (.extract ⟨after, line.tokenReference first⟩ object)
        (after + 1)
  | lookUp {first word callTokens inner function tableToken table}
      (pair? : Option (List Token × List Token)) (result? : Option (List Token))
      {value search discriminator between found discriminatorColumn searchColumn resultColumn
        after}
      (hshape : grammar.recognize? tokens = some (.call first word callTokens inner))
      (hobject : ObjectFunction.ofSpelling? word = none)
      (hfunction : TableFunction.ofSpelling? word = some function)
      (hpair : pair?.isSome = function.hasDiscriminator)
      (hresult : result?.isNone = function.returnsRow)
      (harguments : Token.arguments inner =
        [tableToken] :: (pair?.map Prod.fst).toList ++ value :: (pair?.map Prod.snd).toList ++
          search :: result?.toList)
      (htable : tableToken.name? = some table)
      (hdiscriminator : InOrder reads (pair?.map Prod.fst).toList next discriminator.toList between)
      (hvalue : reads value between found after)
      (hdiscriminatorColumn : pair?.map (Shape.columnName line function.usage ·.2) =
        discriminatorColumn.map pure)
      (hsearch : Shape.columnName line function.usage search = pure searchColumn)
      (hresultColumn : result?.map (Shape.columnName line function.usage) =
        resultColumn.map pure) :
      Builds grammar line reads tokens next
        (.lookUp ⟨after, line.tokenReference first⟩ function table
          (line.tokenReference tableToken) discriminator found discriminatorColumn searchColumn
          resultColumn) (after + 1)
  | call {first function callTokens inner arguments after}
      (hshape : grammar.recognize? tokens = some (.call first function callTokens inner))
      (hobject : ObjectFunction.ofSpelling? function = none)
      (htable : TableFunction.ofSpelling? function = none)
      (harguments : InOrder reads (Token.arguments inner) next arguments after) :
      Builds grammar line reads tokens next
        (.call ⟨after, line.tokenReference first⟩ function arguments) (after + 1)
  | spread {first} (hshape : grammar.recognize? tokens = some (.spread first)) :
      Builds grammar line reads tokens next (.spread ⟨next, line.tokenReference first⟩) (next + 1)
  | path {first names} (hshape : grammar.recognize? tokens = some (.path first names)) :
      Builds grammar line reads tokens next (.path ⟨next, line.tokenReference first⟩ names)
        (next + 1)
  | literal {first value} (hshape : grammar.recognize? tokens = some (.literal first value)) :
      Builds grammar line reads tokens next (.literal ⟨next, line.tokenReference first⟩ value)
        (next + 1)
  | name {first word} (hshape : grammar.recognize? tokens = some (.name first word)) :
      Builds grammar line reads tokens next (.name ⟨next, line.tokenReference first⟩ word)
        (next + 1)

namespace Shape

variable {line : Line} {first : Token} {tokens argument : List Token} {next after : Nat}
  {result : Expr} {reads : List Token → Nat → Expr → Nat → Prop}

theorem gives_readArgument {recur : Numbered Expr}
    (h : (readArgument line first tokens argument recur).Gives next result after) :
    recur.Gives next result after := by
  unfold readArgument at h
  split at h
  · simp at h
  · exact h

theorem columnName_of_gives {usage : String} {column : ColumnName}
    (h : (columnName line usage argument).Gives next column after) :
    columnName line usage argument = pure column ∧ next = after := by
  unfold columnName at h ⊢
  split at h
  · simp at h
  · split at h
    · simp only [gives_pure] at h
      exact ⟨by rw [h.1], h.2⟩
    · simp at h

theorem columnNames_of_gives {α : Type} {usage : String} {argument? : Option α}
    {column? : Option ColumnName} (tokensOf : α → List Token)
    (h : (argument?.mapM fun argument => columnName line usage (tokensOf argument)).Gives next
      column? after) :
    argument?.map (columnName line usage <| tokensOf ·) = column?.map pure ∧ next = after := by
  cases argument? with
  | none =>
    obtain ⟨rfl, rfl⟩ := gives_pure.1 h
    exact ⟨rfl, rfl⟩
  | some argument =>
    obtain ⟨column, hcolumn, rfl⟩ := gives_map.1 h
    obtain ⟨hname, rfl⟩ := columnName_of_gives hcolumn
    exact ⟨congrArg some hname, rfl⟩

/-- Arguments of a table function that have been told apart. -/
theorem exists_of_gives_lookUp {arguments : LookUp} {function : TableFunction}
    (h : (arguments.read line first function).Gives next result after) :
    ∃ token table discriminator between found searchColumn resultColumn last,
      ∃ discriminatorColumn : Option ColumnName,
      arguments.table = [token] ∧ token.name? = some table ∧
      (arguments.discriminator.mapM Prod.fst).Gives next discriminator between ∧
      arguments.value.Gives between found last ∧
      arguments.discriminator.map (columnName line function.usage ·.2) =
        discriminatorColumn.map pure ∧
      columnName line function.usage arguments.searchColumn = pure searchColumn ∧
      arguments.resultColumn.map (columnName line function.usage) = resultColumn.map pure ∧
      result = .lookUp ⟨last, line.tokenReference first⟩ function table
        (line.tokenReference token) discriminator found discriminatorColumn searchColumn
        resultColumn ∧
      after = last + 1 := by
  unfold LookUp.read at h
  split at h
  · next token htable =>
    split at h
    · simp at h
    · next table hname =>
      simp only [gives_bind, gives_mark, gives_pure] at h
      obtain ⟨discriminator, between, hdiscriminator, found, last, hfound, column?, _, hcolumn,
        search, _, hsearch, result?, _, hresult, mark, _, ⟨rfl, rfl⟩, rfl, rfl⟩ := h
      obtain ⟨hsearchColumn, rfl⟩ := columnName_of_gives hsearch
      obtain ⟨hresultColumn, rfl⟩ := columnNames_of_gives id hresult
      obtain ⟨hpairColumn, rfl⟩ := columnNames_of_gives Prod.snd hcolumn
      exact ⟨token, table, discriminator, between, found, search, result?, last, column?,
        htable, hname, hdiscriminator, hfound, hpairColumn, hsearchColumn, hresultColumn, rfl,
        rfl⟩
  · simp at h

theorem builds_lookUp {grammar : Grammar} {all callTokens inner : List Token} {word : String}
    {arguments : List (List Token)} {function : TableFunction}
    (hshape : grammar.recognize? all = some (.call first word callTokens inner))
    (hobject : ObjectFunction.ofSpelling? word = none)
    (hfunction : TableFunction.ofSpelling? word = some function)
    (hinner : Token.arguments inner = arguments)
    {recur : (part : List Token) → part ∈ arguments → Numbered Expr}
    (hreads : ∀ part (hpart : part ∈ arguments) {next result after},
      (recur part hpart).Gives next result after → reads part next result after)
    (h : (readLookUp line first tokens function arguments recur).Gives next result after) :
    grammar.Builds line reads all next result after := by
  unfold readLookUp at h
  split at h
  · next table value search last _ recur hdiscriminator hrow =>
    obtain ⟨token, table, _, _, found, _, _, _, _, rfl, hname, hnone, hfound, hcolumn, hsearch,
      hresult, rfl, rfl⟩ := exists_of_gives_lookUp h
    obtain ⟨rfl, rfl⟩ := gives_pure.1 hnone
    exact .lookUp none (some last) hshape hobject hfunction hdiscriminator.symm hrow.symm
      (by simp [hinner]) hname .nil (hreads _ _ (gives_readArgument hfound)) hcolumn hsearch hresult
  · next table value search _ recur hdiscriminator hrow =>
    obtain ⟨token, table, _, _, found, _, _, _, _, rfl, hname, hnone, hfound, hcolumn, hsearch,
      hresult, rfl, rfl⟩ := exists_of_gives_lookUp h
    obtain ⟨rfl, rfl⟩ := gives_pure.1 hnone
    exact .lookUp none none hshape hobject hfunction hdiscriminator.symm hrow.symm
      (by simp [hinner]) hname .nil (hreads _ _ (gives_readArgument hfound)) hcolumn hsearch hresult
  · next table discriminator value column search last _ recur hdiscriminator hrow =>
    obtain ⟨token, table, _, _, found, _, _, _, _, rfl, hname, hsome, hfound, hcolumn, hsearch,
      hresult, rfl, rfl⟩ := exists_of_gives_lookUp h
    obtain ⟨_, hread, rfl⟩ := gives_map.1 hsome
    exact .lookUp (some (discriminator, column)) (some last) hshape hobject hfunction
      hdiscriminator.symm hrow.symm (by simp [hinner]) hname
      (.cons (hreads _ _ (gives_readArgument hread)) .nil) (hreads _ _ (gives_readArgument hfound))
      hcolumn hsearch hresult
  · next table discriminator value column search _ recur hdiscriminator hrow =>
    obtain ⟨token, table, _, _, found, _, _, _, _, rfl, hname, hsome, hfound, hcolumn, hsearch,
      hresult, rfl, rfl⟩ := exists_of_gives_lookUp h
    obtain ⟨_, hread, rfl⟩ := gives_map.1 hsome
    exact .lookUp (some (discriminator, column)) none hshape hobject hfunction
      hdiscriminator.symm hrow.symm (by simp [hinner]) hname
      (.cons (hreads _ _ (gives_readArgument hread)) .nil) (hreads _ _ (gives_readArgument hfound))
      hcolumn hsearch hresult
  · simp at h

theorem builds_make {grammar : Grammar} {all callTokens inner : List Token} {word : String}
    (making : Making) (hshape : grammar.recognize? all = some (.call first word callTokens inner))
    (hfunction : ObjectFunction.ofSpelling? word = some making.function)
    (h : (readMake line first making (Token.arguments inner)).Gives next result after) :
    grammar.Builds line reads all next result after := by
  unfold readMake at h
  split at h
  · next harguments =>
    split at h
    · next token type htype =>
      simp only [gives_bind, gives_mark, gives_pure] at h
      obtain ⟨_, _, ⟨rfl, rfl⟩, rfl, rfl⟩ := h
      exact .make hshape hfunction harguments htype
    · simp at h
  · simp at h

theorem builds_extract {grammar : Grammar} {all callTokens inner : List Token} {word : String}
    {arguments : List (List Token)}
    (hshape : grammar.recognize? all = some (.call first word callTokens inner))
    (hfunction : ObjectFunction.ofSpelling? word = some .extract)
    (hinner : Token.arguments inner = arguments)
    {recur : (part : List Token) → part ∈ arguments → Numbered Expr}
    (hreads : ∀ part (hpart : part ∈ arguments) {next result after},
      (recur part hpart).Gives next result after → reads part next result after)
    (h : (readExtract line first tokens arguments recur).Gives next result after) :
    grammar.Builds line reads all next result after := by
  unfold readExtract at h
  split at h
  · simp only [gives_bind, gives_mark, gives_pure] at h
    obtain ⟨object, _, hobject, _, _, ⟨rfl, rfl⟩, rfl, rfl⟩ := h
    exact .extract hshape hfunction hinner (hreads _ _ (gives_readArgument hobject))
  · simp at h

theorem builds_call {grammar : Grammar} {all callTokens inner : List Token} {word : String}
    {arguments : List (List Token)}
    (hshape : grammar.recognize? all = some (.call first word callTokens inner))
    (hinner : Token.arguments inner = arguments)
    {recur : (part : List Token) → part ∈ arguments → Numbered Expr}
    (hreads : ∀ part (hpart : part ∈ arguments) {next result after},
      (recur part hpart).Gives next result after → reads part next result after)
    (h : (readCall line first word tokens arguments recur).Gives next result after) :
    grammar.Builds line reads all next result after := by
  unfold readCall at h
  split at h
  · next hfunction => exact builds_make .new hshape hfunction (hinner ▸ h)
  · next hfunction => exact builds_make .fill hshape hfunction (hinner ▸ h)
  · next hfunction => exact builds_extract hshape hfunction hinner hreads h
  · next hobject =>
    split at h
    · next function hfunction => exact builds_lookUp hshape hobject hfunction hinner hreads h
    · next htable =>
      simp only [gives_bind, gives_mark, gives_pure] at h
      obtain ⟨values, _, hvalues, _, _, ⟨rfl, rfl⟩, rfl, rfl⟩ := h
      refine .call hshape hobject htable ?_
      have hall : InOrder reads (arguments.attach.map Subtype.val) next values _ :=
        (gives_mapM hvalues).map fun part _ _ _ _ hread =>
          hreads part.1 part.2 (gives_readArgument hread)
      rw [List.attach_map_subtype_val] at hall
      rwa [hinner]

theorem builds_read {grammar : Grammar} {shape : Shape}
    (hshape : grammar.recognize? tokens = some shape)
    {recur : (part : List Token) → part ∈ shape.parts → Numbered Expr}
    (hreads : ∀ part (hpart : part ∈ shape.parts) {next result after},
      (recur part hpart).Gives next result after → reads part next result after)
    (h : (shape.read line recur).Gives next result after) :
    grammar.Builds line reads tokens next result after := by
  cases shape with
  | branch kind first subject =>
    simp only [Shape.read] at h
    split at h
    · simp at h
    · simp only [gives_bind, gives_mark, gives_pure] at h
      obtain ⟨decision, _, hdecision, _, _, ⟨rfl, rfl⟩, rfl, rfl⟩ := h
      exact .branch hshape (hreads _ _ hdecision)
  | fallback kind first rest =>
    simp only [Shape.read] at h
    split at h
    · simp at h
    · simp only [gives_bind, gives_mark, gives_pure] at h
      obtain ⟨_, _, ⟨rfl, rfl⟩, rfl, rfl⟩ := h
      exact .fallback hshape
  | spreadAssignment first sign invoked =>
    simp only [Shape.read] at h
    split at h
    · simp at h
    · simp only [gives_bind] at h
      obtain ⟨call, _, hcall, h⟩ := h
      split at h
      · simp only [gives_bind, gives_mark, gives_pure] at h
        obtain ⟨_, _, ⟨rfl, rfl⟩, rfl, rfl⟩ := h
        exact .spreadAssignment hshape (hreads _ _ hcall)
      · simp at h
  | declaration first type word =>
    simp only [Shape.read, gives_bind, gives_mark, gives_pure] at h
    obtain ⟨_, _, ⟨rfl, rfl⟩, rfl, rfl⟩ := h
    exact .declaration hshape
  | declarationWith first type word sign value =>
    simp only [Shape.read] at h
    split at h
    · simp at h
    · simp only [gives_bind, gives_mark, gives_pure] at h
      obtain ⟨default, _, hdefault, _, _, ⟨rfl, rfl⟩, rfl, rfl⟩ := h
      exact .declarationWith hshape (hreads _ _ hdefault)
  | assignment first target sign value =>
    simp only [Shape.read] at h
    split at h
    · simp at h
    · simp only [gives_bind, gives_mark, gives_pure] at h
      obtain ⟨_, _, ⟨rfl, rfl⟩, offered, _, hoffered, _, _, ⟨rfl, rfl⟩, rfl, rfl⟩ := h
      exact .assignment hshape (hreads _ _ hoffered)
  | binary first left sign operator right =>
    simp only [Shape.read] at h
    split at h
    · simp at h
    · split at h
      · simp at h
      · simp only [gives_bind, gives_mark, gives_pure] at h
        obtain ⟨leftValue, _, hleft, rightValue, _, hright, _, _, ⟨rfl, rfl⟩, rfl, rfl⟩ := h
        exact .binary hshape (hreads _ _ hleft) (hreads _ _ hright)
  | unplaced first tokens => simp [Shape.read] at h
  | group first inner =>
    simp only [Shape.read] at h
    split at h
    · simp at h
    · simp only [gives_bind, gives_mark, gives_pure] at h
      obtain ⟨value, _, hvalue, _, _, ⟨rfl, rfl⟩, rfl, rfl⟩ := h
      exact .group hshape (hreads _ _ hvalue)
  | indexed first table bracket index =>
    simp only [Shape.read] at h
    split at h
    · simp at h
    · simp only [gives_bind, gives_mark, gives_pure] at h
      obtain ⟨value, _, hvalue, _, _, ⟨rfl, rfl⟩, rfl, rfl⟩ := h
      exact .indexed hshape (hreads _ _ hvalue)
  | call first function tokens inner => exact builds_call hshape rfl hreads h
  | spread first =>
    simp only [Shape.read, gives_bind, gives_mark, gives_pure] at h
    obtain ⟨_, _, ⟨rfl, rfl⟩, rfl, rfl⟩ := h
    exact .spread hshape
  | path first names =>
    simp only [Shape.read, gives_bind, gives_mark, gives_pure] at h
    obtain ⟨_, _, ⟨rfl, rfl⟩, rfl, rfl⟩ := h
    exact .path hshape
  | literal first value =>
    simp only [Shape.read, gives_bind, gives_mark, gives_pure] at h
    obtain ⟨_, _, ⟨rfl, rfl⟩, rfl, rfl⟩ := h
    exact .literal hshape
  | name first word =>
    simp only [Shape.read, gives_bind, gives_mark, gives_pure] at h
    obtain ⟨_, _, ⟨rfl, rfl⟩, rfl, rfl⟩ := h
    exact .name hshape

end Shape

namespace Grammar

variable {grammar : Grammar} {line : Line} {tokens : List Token} {next after : Nat} {result : Expr}

theorem read_of_recognize? {shape : Shape} (hne : tokens ≠ [])
    (h : grammar.recognize? tokens = some shape) :
    grammar.read line tokens = shape.read line fun part _ => grammar.read line part := by
  rw [read.eq_def]
  split
  · exact absurd rfl hne
  · split
    · next hnone =>
      rw [h] at hnone
      cases hnone
    · next shape' hshape =>
      rw [h] at hshape
      cases hshape
      rfl

/-- Induction on what is read: parts are shorter than what they are part of. -/
theorem read_induction {motive : List Token → Nat → Expr → Nat → Prop}
    (step : ∀ {tokens next result after},
      grammar.Builds line motive tokens next result after → motive tokens next result after)
    (h : (grammar.read line tokens).Gives next result after) :
    motive tokens next result after := by
  induction hlength : tokens.length using Nat.strongRecOn generalizing tokens next result after with
  | ind length ih =>
    subst hlength
    rw [read.eq_def] at h
    split at h
    · simp at h
    · split at h
      · simp at h
      · next shape hshape =>
        refine step (Shape.builds_read hshape (fun part hpart next result after hread => ?_) h)
        exact ih part.length (length_lt_of_recognize? hshape hpart) hread rfl

theorem Builds.imp {reads reads' : List Token → Nat → Expr → Nat → Prop}
    (h : grammar.Builds line reads tokens next result after)
    (hreads : ∀ {shape}, grammar.recognize? tokens = some shape → ∀ part ∈ shape.parts,
      ∀ {next result after}, reads part next result after → reads' part next result after) :
    grammar.Builds line reads' tokens next result after := by
  cases h with
  | branch hshape hsubject =>
    exact .branch hshape (hreads hshape _ (by simp [Shape.parts]) hsubject)
  | fallback hshape => exact .fallback hshape
  | spreadAssignment hshape hinvoked =>
    exact .spreadAssignment hshape (hreads hshape _ (by simp [Shape.parts]) hinvoked)
  | declaration hshape => exact .declaration hshape
  | declarationWith hshape hvalue =>
    exact .declarationWith hshape (hreads hshape _ (by simp [Shape.parts]) hvalue)
  | assignment hshape hvalue =>
    exact .assignment hshape (hreads hshape _ (by simp [Shape.parts]) hvalue)
  | binary hshape hleft hright =>
    exact .binary hshape (hreads hshape _ (by simp [Shape.parts]) hleft)
      (hreads hshape _ (by simp [Shape.parts]) hright)
  | group hshape hinner => exact .group hshape (hreads hshape _ (by simp [Shape.parts]) hinner)
  | indexed hshape hindex =>
    exact .indexed hshape (hreads hshape _ (by simp [Shape.parts]) hindex)
  | make hshape hfunction harguments htype => exact .make hshape hfunction harguments htype
  | extract hshape hfunction harguments hobject =>
    exact .extract hshape hfunction harguments
      (hreads hshape _ (by simp [Shape.parts, harguments]) hobject)
  | lookUp pair? result? hshape hobject hfunction hpair hresult harguments htable hdiscriminator
      hvalue hdiscriminatorColumn hsearch hresultColumn =>
    have hread := hreads hshape
    simp only [Shape.parts, harguments] at hread
    exact .lookUp pair? result? hshape hobject hfunction hpair hresult harguments htable
      (hdiscriminator.imp_of_mem fun part hpart => hread part (by simp_all))
      (hread _ (by simp) hvalue) hdiscriminatorColumn hsearch hresultColumn
  | call hshape hobject htable harguments =>
    exact .call hshape hobject htable (harguments.imp_of_mem (hreads hshape))
  | spread hshape => exact .spread hshape
  | path hshape => exact .path hshape
  | literal hshape => exact .literal hshape
  | name hshape => exact .name hshape

/-- Induction on what is read from tokens with a property that all parts inherit. -/
theorem read_induction_of_parts (holds : List Token → Prop)
    {motive : List Token → Nat → Expr → Nat → Prop}
    (hparts : ∀ {tokens shape}, grammar.recognize? tokens = some shape → holds tokens →
      ∀ part ∈ shape.parts, holds part)
    (step : ∀ {tokens next result after}, holds tokens →
      grammar.Builds line motive tokens next result after → motive tokens next result after)
    (htokens : holds tokens) (h : (grammar.read line tokens).Gives next result after) :
    motive tokens next result after := by
  revert htokens
  refine read_induction (motive := fun tokens next result after => holds tokens →
    motive tokens next result after) (fun hbuilds htokens => step htokens ?_) h
  apply hbuilds.imp
  intro shape hshape part hpart next result after hread
  exact hread (hparts hshape htokens part hpart)

end Grammar

/-! ### Failed readings spend numbers too -/

namespace Shape

variable {line : Line} {first : Token} {tokens : List Token} {arguments : List (List Token)}

theorem spends_readArgument {argument : List Token} {recur : Numbered Expr} (h : recur.Spends) :
    (readArgument line first tokens argument recur).Spends := by
  unfold readArgument
  split
  · exact spends_fail _ _ _
  · exact h

theorem spends_columnName (usage : String) (argument : List Token) :
    (columnName line usage argument).Spends := by
  unfold columnName
  split
  · exact spends_throw _
  · split
    · exact spends_pure _
    · exact spends_fail _ _ _

theorem spends_lookUp {arguments : LookUp} (function : TableFunction)
    (hdiscriminator : ∀ pair ∈ arguments.discriminator, pair.1.Spends)
    (hvalue : arguments.value.Spends) : (arguments.read line first function).Spends := by
  unfold LookUp.read
  split
  · split
    · exact spends_fail _ _ _
    · apply spends_bind (spends_option _ hdiscriminator)
      intro _
      apply spends_bind hvalue
      intro _
      refine spends_bind (spends_option _ fun _ _ => spends_columnName _ _) fun _ => ?_
      apply spends_bind (spends_columnName _ _)
      intro _
      refine spends_bind (spends_option _ fun _ _ => spends_columnName _ _) fun _ => ?_
      exact spends_bind (spends_mark _ _) fun _ => spends_pure _
  · exact spends_fail _ _ _

theorem spends_call (function : String)
    {recur : (part : List Token) → part ∈ arguments → Numbered Expr}
    (h : ∀ part hpart, (recur part hpart).Spends) :
    (readCall line first function tokens arguments recur).Spends := by
  have hargument part hpart : (readArgument line first tokens part (recur part hpart)).Spends :=
    spends_readArgument (h part hpart)
  have hmake (making : Making) : (readMake line first making arguments).Spends := by
    unfold readMake
    split
    · split
      · exact spends_bind (spends_mark _ _) fun _ => spends_pure _
      · exact spends_fail _ _ _
    · exact spends_fail _ _ _
  unfold readCall
  split
  · exact hmake .new
  · exact hmake .fill
  · unfold readExtract
    split
    · apply spends_bind (hargument _ _)
      intro _
      exact spends_bind (spends_mark _ _) fun _ => spends_pure _
    · exact spends_fail _ _ _
  · split
    · unfold readLookUp
      split
      · exact spends_lookUp _ (by simp) (hargument _ _)
      · exact spends_lookUp _ (by simp) (hargument _ _)
      · exact spends_lookUp _ (by simpa using hargument _ _) (hargument _ _)
      · exact spends_lookUp _ (by simpa using hargument _ _) (hargument _ _)
      · exact spends_fail _ _ _
    · refine spends_bind (spends_mapM _ fun part _ => hargument part.1 part.2) fun _ => ?_
      exact spends_bind (spends_mark _ _) fun _ => spends_pure _

theorem spends_read (shape : Shape)
    {recur : (part : List Token) → part ∈ shape.parts → Numbered Expr}
    (h : ∀ part hpart, (recur part hpart).Spends) : (shape.read line recur).Spends := by
  have hmarked {first : Token} (build : Mark → Expr) :
      (do return build (← mark line first)).Spends :=
    spends_bind (spends_mark _ _) fun _ => spends_pure _
  cases shape with
  | branch kind first subject | group first subject | declarationWith first _ _ _ subject
  | indexed first _ _ subject =>
    simp only [Shape.read]
    split
    · exact spends_fail _ _ _
    · exact spends_bind (h _ _) fun _ => hmarked _
  | fallback kind first rest =>
    simp only [Shape.read]
    split
    · exact spends_fail _ _ _
    · exact hmarked _
  | spreadAssignment first sign invoked =>
    simp only [Shape.read]
    split
    · exact spends_fail _ _ _
    · apply spends_bind (h _ _)
      intro _
      split
      · exact hmarked _
      · exact spends_fail _ _ _
  | assignment first target sign value =>
    simp only [Shape.read]
    split
    · exact spends_fail _ _ _
    · apply spends_bind (spends_mark _ _)
      intro _
      exact spends_bind (h _ _) fun _ => hmarked _
  | binary first left sign operator right =>
    simp only [Shape.read]
    split
    · exact spends_fail _ _ _
    · split
      · exact spends_fail _ _ _
      · apply spends_bind (h _ _)
        intro _
        exact spends_bind (h _ _) fun _ => hmarked _
  | unplaced first tokens => exact spends_fail _ _ _
  | call first function tokens inner => exact spends_call function h
  | declaration | spread | path | literal | name => exact hmarked _

end Shape

namespace Grammar

theorem spends_read (grammar : Grammar) (line : Line) (tokens : List Token) :
    (grammar.read line tokens).Spends := by
  induction hlength : tokens.length using Nat.strongRecOn generalizing tokens with
  | ind length ih =>
    subst hlength
    rw [read.eq_def]
    split
    · exact spends_throw _
    · split
      · exact spends_fail _ _ _
      · next shape hshape =>
        apply Shape.spends_read shape
        intro part hpart
        exact ih part.length (length_lt_of_recognize? hshape hpart) part rfl

end Grammar

end DecisionLang
