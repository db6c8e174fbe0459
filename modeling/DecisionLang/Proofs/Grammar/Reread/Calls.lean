import DecisionLang.Proofs.Grammar.Reread.Shapes

/-!
# Reading a call again

The arguments of a call are told apart by the separators outside of brackets, and each is read from
its own tokens. Look-ups take theirs by their roles.
-/

namespace DecisionLang

open Numbered

namespace Grammar

variable {line : Line} {tokens : List Token} {next after : Nat} {first : Token}
  {rest : List Token} {mark mark' : Mark} {inside value : Expr}

/-- The tokens of a call, taken apart. -/
theorem recognize?_callKinds {function : String} {arguments : List (List TokenKind)}
    (hfunction : IsName function) (hsealed : ∀ argument ∈ arguments, TokenKind.Sealed argument)
    (hne : ∀ argument ∈ arguments, argument ≠ [])
    (h : tokens.map Token.kind = Expr.callKinds function arguments) :
    ∃ first inner, standard.recognize? tokens = some (.call first function tokens inner) ∧
      (Token.arguments inner).map (List.map Token.kind) = arguments := by
  have hseparator : TokenKind.Nested [.operator .argumentSeparator] := by decide
  have hnested := TokenKind.Nested.intercalate hseparator fun argument hargument =>
    (hsealed argument hargument).nested
  have hall : TokenKind.Sealed (tokens.map Token.kind) := h ▸ Expr.sealed_callKinds
    fun argument hargument => (hsealed argument hargument).nested
  rw [Expr.callKinds, List.cons_append, List.cons_append] at h
  obtain ⟨first, rest, rfl, hfirst, h⟩ := List.map_eq_cons_iff.1 h
  obtain ⟨second, rest, rfl, hsecond, h⟩ := List.map_eq_cons_iff.1 h
  obtain ⟨inner, last, rfl, hinner, hinnerNested, hlast⟩ := Token.exists_enclosed hnested rfl h
  exact ⟨first, inner, recognize?_call (Token.name?_eq_some_iff.2 ⟨hfirst, hfunction⟩)
    (Token.isOperator_iff_kind.2 hsecond) hinnerNested hlast hall,
    Token.arguments_of_sealed hsealed hne hinner⟩

theorem rereads_make {making : Making} {type : NamePath} {reference : Reference}
    (htype : type.IsLegible)
    (h : tokens.map Token.kind = Expr.callKinds making.function.spelling [[type.kind]]) :
    Rereads line tokens (.make mark making type reference) := by
  have hname : IsName making.function.spelling := by cases making <;> decide
  have hne : tokens ≠ [] := by
    rintro rfl
    cases h
  obtain ⟨first, inner, hshape, harguments⟩ := recognize?_callKinds hname
    (by simpa using type.sealed_kind) (by simp) h
  obtain ⟨argument, hargument, hkinds⟩ := List.map_eq_singleton_iff.1 harguments
  obtain ⟨token, rfl, hkind⟩ := List.map_eq_singleton_iff.1 hkinds
  intro next
  refine ⟨.make ⟨next, line.tokenReference first⟩ making type (line.tokenReference token), next + 1,
    ?_, ?_⟩
  · have hread : (Shape.readMake line first making (Token.arguments inner)).Gives next
        (.make ⟨next, line.tokenReference first⟩ making type (line.tokenReference token))
        (next + 1) := by
      rw [hargument, Shape.readMake]
      simp only [Shape.typePath?_of_kind htype hkind]
      exact gives_mark_pure fun mark => .make mark making type _
    rw [read_of_recognize? hne hshape, Shape.read]
    cases making <;> exact hread
  · constructor <;> rfl

theorem gives_readExtract {arguments : List (List Token)} {argument : List Token} {result : Expr}
    (recur : (part : List Token) → part ∈ arguments → Numbered Expr)
    (harguments : arguments = [argument]) (hne : argument ≠ [])
    (h : ∀ hmem, (recur argument hmem).Gives next result after) :
    (Shape.readExtract line first tokens arguments recur).Gives next
      (.extract ⟨after, line.tokenReference first⟩ result) (after + 1) := by
  subst harguments
  exact gives_marked .extract (Shape.gives_readArgument_of hne (h _))

theorem rereads_extract (hsealed : TokenKind.Sealed inside.kinds)
    (h : tokens.map Token.kind = Expr.callKinds ObjectFunction.extract.spelling [inside.kinds])
    (hrereads : ∀ part, part.map Token.kind = inside.kinds → Rereads line part inside) :
    Rereads line tokens (.extract mark inside) := by
  have hne : tokens ≠ [] := by
    rintro rfl
    cases h
  obtain ⟨first, inner, hshape, harguments⟩ := recognize?_callKinds (by decide)
    (by simpa using hsealed) (by simpa using inside.kinds_ne_nil) h
  obtain ⟨argument, hargument, hkinds⟩ := List.map_eq_singleton_iff.1 harguments
  have hargumentNe : argument ≠ [] := by
    rintro rfl
    exact inside.kinds_ne_nil hkinds.symm
  intro next
  obtain ⟨result, after, hresult, herased, htext, _⟩ := hrereads argument hkinds next
  refine ⟨.extract ⟨after, line.tokenReference first⟩ result, after + 1, ?_, ?_⟩
  · rw [read_of_recognize? hne hshape, Shape.read]
    exact gives_readExtract (fun part _ => standard.read line part) hargument hargumentNe
      fun _ => hresult
  · constructor <;> simp [Expr.erased, Expr.text, Expr.isBinary, herased, htext]

theorem columnName_of_kinds {argument : List Token} {column : ColumnName} (line : Line) (usage : String)
    (h : argument.map Token.kind = [column.kind]) :
    ∃ read : ColumnName,
      (∀ next, (Shape.columnName line usage argument).Gives next read next) ∧
      read.erased = column.erased ∧ read.text = column.text := by
  obtain ⟨token, rfl, hkind⟩ := List.map_eq_singleton_iff.1 h
  refine ⟨{ column with reference := line.tokenReference token }, fun _ => ?_, rfl, rfl⟩
  rw [Shape.columnName_of_kind usage hkind]
  exact gives_pure.2 ⟨rfl, rfl⟩

theorem columnNames_of_kinds {argument? : Option (List Token)} {column? : Option ColumnName}
    (line : Line) (usage : String)
    (h : argument?.map (List.map Token.kind) = column?.map fun column => [column.kind]) :
    ∃ read? : Option ColumnName,
      (∀ next, (argument?.mapM (Shape.columnName line usage)).Gives next read? next) ∧
      read?.map ColumnName.erased = column?.map ColumnName.erased ∧
      read?.map ColumnName.text = column?.map ColumnName.text := by
  cases column? with
  | none =>
    rw [Option.map_none, Option.map_eq_none_iff] at h
    subst h
    exact ⟨none, fun _ => gives_pure.2 ⟨rfl, rfl⟩, rfl, rfl⟩
  | some column =>
    rw [Option.map_some, Option.map_eq_some_iff] at h
    obtain ⟨argument, rfl, hargument⟩ := h
    obtain ⟨read, hread, herased, htext⟩ := columnName_of_kinds line usage hargument
    exact ⟨some read, fun next => gives_map.2 ⟨read, hread next, rfl⟩, congrArg some herased,
      congrArg some htext⟩

/-- A look-up whose arguments stand by their roles. -/
theorem readLookUp_of_roles {function : TableFunction} {read : List Token → Numbered Expr}
    {arguments : List (List Token)} {table value search : List Token}
    {pair : Option (List Token × List Token)} {result : Option (List Token)}
    (h : arguments = table :: ((pair.map Prod.fst).toList ++
      value :: ((pair.map Prod.snd).toList ++ search :: result.toList)))
    (hpair : pair.isSome = function.hasDiscriminator)
    (hresult : result.isNone = function.returnsRow) :
    Shape.readLookUp line first tokens function arguments (fun part _ => read part) =
      Shape.LookUp.read
        ⟨table, pair.map fun roles =>
            (Shape.readArgument line first tokens roles.1 (read roles.1), roles.2),
          Shape.readArgument line first tokens value (read value), search, result⟩
        line first function := by
  subst h
  cases function <;> cases pair <;> cases result <;>
    first
    | rfl
    | simp [TableFunction.hasDiscriminator, TableFunction.returnsRow] at hpair hresult

theorem exists_eq_toList {α β : Type} {f : α → β} {items : List α} {item? : Option β}
    (h : items.map f = item?.toList) : ∃ taken : Option α, items = taken.toList ∧ taken.map f = item? := by
  cases item? with
  | none => exact ⟨none, List.map_eq_nil_iff.1 h, rfl⟩
  | some item =>
    obtain ⟨taken, rfl, htaken⟩ := List.map_eq_singleton_iff.1 h
    exact ⟨some taken, rfl, congrArg some htaken⟩

/-- The arguments of a look-up by their roles. -/
theorem exists_roles {arguments : List (List Token)} {table value search : List TokenKind}
    {discriminator column result : Option (List TokenKind)}
    (hpair : discriminator.isSome = column.isSome)
    (h : arguments.map (List.map Token.kind) =
      table :: (discriminator.toList ++ value :: (column.toList ++ search :: result.toList))) :
    ∃ (table' value' search' : List Token) (pair : Option (List Token × List Token))
      (result' : Option (List Token)),
      arguments = table' :: ((pair.map Prod.fst).toList ++
        value' :: ((pair.map Prod.snd).toList ++ search' :: result'.toList)) ∧
      table'.map Token.kind = table ∧ value'.map Token.kind = value ∧
      search'.map Token.kind = search ∧
      (pair.map Prod.fst).map (List.map Token.kind) = discriminator ∧
      (pair.map Prod.snd).map (List.map Token.kind) = column ∧
      result'.map (List.map Token.kind) = result := by
  obtain ⟨table', rest, rfl, htable, hrest⟩ := List.map_eq_cons_iff.1 h
  obtain ⟨parts, rest, rfl, hparts, hrest'⟩ := List.map_eq_append_iff.1 hrest
  obtain ⟨value', rest, rfl, hvalue, hrest''⟩ := List.map_eq_cons_iff.1 hrest'
  obtain ⟨columns, rest, rfl, hcolumns, hlast⟩ := List.map_eq_append_iff.1 hrest''
  obtain ⟨search', rest, rfl, hsearch, hresults⟩ := List.map_eq_cons_iff.1 hlast
  obtain ⟨part, rfl, hpart⟩ := exists_eq_toList hparts
  obtain ⟨name, rfl, hname⟩ := exists_eq_toList hcolumns
  obtain ⟨result', rfl, hresult⟩ := exists_eq_toList hresults
  obtain ⟨pair, rfl, rfl⟩ : ∃ pair : Option (List Token × List Token),
      part = pair.map Prod.fst ∧ name = pair.map Prod.snd := by
    rw [← hpart, ← hname, Option.isSome_map, Option.isSome_map] at hpair
    cases part with
    | none => exact ⟨none, rfl, by simpa using hpair⟩
    | some part =>
      cases name with
      | none => cases hpair
      | some name => exact ⟨some (part, name), rfl, rfl⟩
  exact ⟨table', value', search', pair, result', rfl, htable, hvalue, hsearch, hpart, hname, hresult⟩

theorem gives_lookUp {function : TableFunction} {read : List Token → Numbered Expr}
    {token : Token} {table : String} {part search : List Token}
    {pair : Option (List Token × List Token)} {result : Option (List Token)} {between : Nat}
    {discriminator : Option Expr} {found : Expr}
    {discriminatorColumn resultColumn : Option ColumnName} {searchColumn : ColumnName}
    (hname : token.name? = some table)
    (hdiscriminator : ((pair.map Prod.fst).mapM read).Gives next discriminator between)
    (hne : ∀ roles ∈ pair, roles.1 ≠ []) (hpart : part ≠ [])
    (hvalue : (read part).Gives between found after)
    (hcolumn : ∀ next, ((pair.map Prod.snd).mapM
      (Shape.columnName line function.usage)).Gives next discriminatorColumn next)
    (hsearch : ∀ next, (Shape.columnName line function.usage search).Gives next searchColumn next)
    (hresult : ∀ next, (result.mapM (Shape.columnName line function.usage)).Gives next resultColumn next) :
    (Shape.LookUp.read
        ⟨[token], pair.map fun roles =>
            (Shape.readArgument line first tokens roles.1 (read roles.1), roles.2),
          Shape.readArgument line first tokens part (read part), search, result⟩
        line first function).Gives next
      (.lookUp ⟨after, line.tokenReference first⟩ function table (line.tokenReference token)
        discriminator found discriminatorColumn searchColumn resultColumn) (after + 1) := by
  rw [Shape.LookUp.read]
  simp only [hname, gives_bind]
  refine ⟨discriminator, between, ?_, found, after, Shape.gives_readArgument_of hpart hvalue,
    discriminatorColumn, after, ?_, searchColumn, after, hsearch after, resultColumn, after, hresult after,
    _, _, gives_mark.2 ⟨rfl, rfl⟩, gives_pure.2 ⟨rfl, rfl⟩⟩
  · cases pair with
    | none => exact hdiscriminator
    | some roles =>
      obtain ⟨value, hvalue, rfl⟩ := gives_map.1 hdiscriminator
      exact gives_map.2 ⟨value, Shape.gives_readArgument_of (hne roles rfl) hvalue, rfl⟩
  · cases pair <;> exact hcolumn after

theorem exists_gives_mapM? {part? : Option (List Token)} {target? : Option Expr}
    (hkinds : part?.map (List.map Token.kind) = target?.map Expr.kinds)
    (h : ∀ target ∈ target?, ∀ part : List Token, part.map Token.kind = target.kinds →
      Rereads line part target) (next : Nat) :
    ∃ read? after, (part?.mapM (standard.read line)).Gives next read? after ∧
      read?.map Expr.erased = target?.map Expr.erased ∧
      read?.map Expr.text = target?.map Expr.text := by
  cases target? with
  | none =>
    rw [Option.map_none, Option.map_eq_none_iff] at hkinds
    subst hkinds
    exact ⟨none, next, gives_pure.2 ⟨rfl, rfl⟩, rfl, rfl⟩
  | some target =>
    rw [Option.map_some, Option.map_eq_some_iff] at hkinds
    obtain ⟨part, rfl, hpart⟩ := hkinds
    obtain ⟨result, after, hresult, herased, htext, _⟩ := h target rfl part hpart next
    exact ⟨some result, after, gives_map.2 ⟨result, hresult, rfl⟩, congrArg some herased,
      congrArg some htext⟩

theorem sealed_roles (table : String) {discriminator : Option Expr}
    (discriminatorColumn : Option ColumnName) (searchColumn : ColumnName)
    (resultColumn : Option ColumnName)
    (hdiscriminator : ∀ part ∈ discriminator, TokenKind.Sealed part.kinds)
    (hvalue : TokenKind.Sealed value.kinds) :
    ∀ argument ∈ [TokenKind.word table] :: ((discriminator.map Expr.kinds).toList ++
      value.kinds :: ((discriminatorColumn.map fun column => [column.kind]).toList ++
        [searchColumn.kind] :: (resultColumn.map fun column => [column.kind]).toList)),
      TokenKind.Sealed argument ∧ argument ≠ [] := by
  simp only [List.mem_append, List.mem_cons, Option.mem_toList, Option.map_eq_some_iff]
  rintro argument (rfl | ⟨part, hpart, rfl⟩ | rfl | ⟨column, _, rfl⟩ | rfl | ⟨column, _, rfl⟩)
  · exact ⟨TokenKind.sealed_word _, List.cons_ne_nil _ _⟩
  · exact ⟨hdiscriminator part hpart, part.kinds_ne_nil⟩
  · exact ⟨hvalue, value.kinds_ne_nil⟩
  · exact ⟨column.sealed_kind, List.cons_ne_nil _ _⟩
  · exact ⟨searchColumn.sealed_kind, List.cons_ne_nil _ _⟩
  · exact ⟨column.sealed_kind, List.cons_ne_nil _ _⟩

theorem rereads_lookUp {function : TableFunction} {table : String} {reference : Reference}
    {discriminator : Option Expr} {discriminatorColumn resultColumn : Option ColumnName}
    {searchColumn : ColumnName} (htable : IsName table)
    (hpair : discriminator.isSome = function.hasDiscriminator)
    (hpairColumn : discriminatorColumn.isSome = function.hasDiscriminator)
    (hresult : resultColumn.isNone = function.returnsRow)
    (hsealed : ∀ part ∈ discriminator, TokenKind.Sealed part.kinds)
    (hsealed' : TokenKind.Sealed value.kinds)
    (h : tokens.map Token.kind = (Expr.lookUp mark function table reference discriminator value
      discriminatorColumn searchColumn resultColumn).kinds)
    (hdiscriminator : ∀ part ∈ discriminator, ∀ tokens : List Token,
      tokens.map Token.kind = part.kinds → Rereads line tokens part)
    (hvalue : ∀ tokens : List Token, tokens.map Token.kind = value.kinds →
      Rereads line tokens value) :
    Rereads line tokens (.lookUp mark function table reference discriminator value
      discriminatorColumn searchColumn resultColumn) := by
  have hne : tokens ≠ [] := by
    rintro rfl
    exact Expr.kinds_ne_nil _ h.symm
  rw [Expr.kinds, Expr.kinds?_eq, List.cons_append, List.cons_append, List.append_assoc,
    List.cons_append] at h
  have hname : IsName function.spelling := by cases function <;> decide
  have hall := sealed_roles table discriminatorColumn searchColumn resultColumn hsealed hsealed'
  obtain ⟨first, inner, hshape, harguments⟩ := recognize?_callKinds hname
    (fun argument hargument => (hall argument hargument).1)
    (fun argument hargument => (hall argument hargument).2) h
  obtain ⟨tableTokens, valueTokens, searchTokens, pair, resultTokens, hroles, htable', hvalue',
    hsearch, hparts, hcolumns, hresults⟩ := exists_roles (by simp [hpair, hpairColumn]) harguments
  obtain ⟨token, rfl, hkind⟩ := List.map_eq_singleton_iff.1 htable'
  intro next
  obtain ⟨discriminator', between, hread, herased, htext⟩ :=
    exists_gives_mapM? hparts hdiscriminator next
  obtain ⟨found, after, hfound, herasedFound, htextFound, _⟩ := hvalue valueTokens hvalue' between
  obtain ⟨column, hcolumn, herasedColumn, htextColumn⟩ :=
    columnNames_of_kinds line function.usage hcolumns
  obtain ⟨searched, hsearched, herasedSearch, htextSearch⟩ :=
    columnName_of_kinds line function.usage hsearch
  obtain ⟨result, hread', herasedResult, htextResult⟩ :=
    columnNames_of_kinds line function.usage hresults
  have hpairRoles : pair.isSome = function.hasDiscriminator := by
    rw [← hpair]
    simpa using congrArg Option.isSome hparts
  have hresultRoles : resultTokens.isNone = function.returnsRow := by
    rw [← hresult]
    simpa using congrArg Option.isNone hresults
  have hne' : ∀ roles ∈ pair, roles.1 ≠ [] := by
    rintro roles rfl hnil
    cases discriminator <;> simp_all [Expr.kinds_ne_nil]
  have hpart : valueTokens ≠ [] := by
    rintro rfl
    exact value.kinds_ne_nil hvalue'.symm
  have hlookUp : (Shape.readLookUp line first tokens function (Token.arguments inner)
      fun part _ => standard.read line part).Gives next
      (.lookUp ⟨after, line.tokenReference first⟩ function table (line.tokenReference token)
        discriminator' found column searched result) (after + 1) := by
    rw [readLookUp_of_roles hroles hpairRoles hresultRoles]
    exact gives_lookUp (Token.name?_eq_some_iff.2 ⟨hkind, htable⟩)
      hread hne' hpart hfound hcolumn hsearched hread'
  refine ⟨.lookUp ⟨after, line.tokenReference first⟩ function table (line.tokenReference token)
    discriminator' found column searched result, after + 1, ?_, ?_⟩
  · rw [read_of_recognize? hne hshape, Shape.read]
    cases function <;> exact hlookUp
  · constructor
    · simp [Expr.erased, herased, herasedFound, herasedColumn, herasedSearch, herasedResult]
    · simp [Expr.text, htext, htextFound, htextColumn, htextSearch, htextResult]
    · rfl

theorem readCall_of_call {function : String} {arguments : List (List Token)}
    {read : List Token → Numbered Expr} (hobject : ObjectFunction.ofSpelling? function = none)
    (htable : TableFunction.ofSpelling? function = none) :
    Shape.readCall line first function tokens arguments (fun part _ => read part) = do
      let values ← arguments.mapM fun part =>
        Shape.readArgument line first tokens part (read part)
      return .call (← Numbered.mark line first) function values := by
  have hattach := List.mapM_map (m := Numbered) (l := arguments.attach) (f := Subtype.val)
    (g := fun part => Shape.readArgument line first tokens part (read part))
  rw [List.attach_map_subtype_val] at hattach
  unfold Shape.readCall
  simp only [hobject, htable, hattach]
  rfl

theorem rereads_call {function : String} {arguments : List Expr} (hfunction : IsName function)
    (hobject : ObjectFunction.ofSpelling? function = none)
    (htable : TableFunction.ofSpelling? function = none)
    (hsealed : ∀ argument ∈ arguments, TokenKind.Sealed argument.kinds)
    (h : tokens.map Token.kind = (Expr.call mark function arguments).kinds)
    (hrereads : ∀ argument ∈ arguments, ∀ part : List Token,
      part.map Token.kind = argument.kinds → Rereads line part argument) (next : Nat) :
    ∃ mark' results after, (standard.read line tokens).Gives next (.call mark' function results) after ∧
      (Expr.call mark' function results).Same (.call mark function arguments) := by
  have hne : tokens ≠ [] := by
    rintro rfl
    exact Expr.kinds_ne_nil _ h.symm
  rw [Expr.kinds, Expr.allKinds_eq] at h
  obtain ⟨first, inner, hshape, harguments⟩ := recognize?_callKinds hfunction
    (List.forall_mem_map.2 hsealed)
    (List.forall_mem_map.2 fun argument _ => argument.kinds_ne_nil) h
  have hread (argument : Expr) (hargument : argument ∈ arguments) (part : List Token)
      (hpart : part.map Token.kind = argument.kinds) (next : Nat) : ∃ result after,
      (Shape.readArgument line first tokens part (standard.read line part)).Gives next result after ∧
        result.Same argument := by
    obtain ⟨result, after, hresult, hsame⟩ := hrereads argument hargument part hpart next
    refine ⟨result, after, Shape.gives_readArgument_of ?_ hresult, hsame⟩
    rintro rfl
    exact argument.kinds_ne_nil hpart.symm
  obtain ⟨results, after, hresults, herased, htext⟩ := exists_gives_mapM harguments hread next
  refine ⟨⟨after, line.tokenReference first⟩, results, after + 1, ?_, ?_⟩
  · have hcall : (Shape.readCall line first function tokens (Token.arguments inner)
        fun part _ => standard.read line part).Gives next
        (.call ⟨after, line.tokenReference first⟩ function results) (after + 1) := by
      rw [readCall_of_call hobject htable]
      exact gives_marked (fun mark values => .call mark function values) hresults
    rw [read_of_recognize? hne hshape, Shape.read]
    exact hcall
  · constructor <;> simp [Expr.erased, Expr.text, Expr.isBinary, herased, htext]

theorem rereads_spreadAssign {function : String} {arguments : List Expr}
    (hfirst : first.isOperator .spread = true) (hsecond : second.isOperator .assignment = true)
    (hne : rest ≠ [])
    (h : ∀ next, ∃ mark results after,
      (standard.read line rest).Gives next (.call mark function results) after ∧
        (Expr.call mark function results).Same (.call mark' function arguments)) :
    Rereads line (first :: second :: rest) (.spreadAssign mark (.call mark' function arguments)) := by
  intro next
  obtain ⟨callMark, results, after, hresult, herased, htext, _⟩ := h next
  obtain ⟨start, rest, rfl⟩ := List.exists_cons_of_ne_nil hne
  refine ⟨.spreadAssign ⟨after, line.tokenReference first⟩ (.call callMark function results),
    after + 1, ?_, ?_⟩
  · rw [read_of_recognize? (List.cons_ne_nil _ _) (recognize?_spreadAssignment hfirst hsecond),
      Shape.read, gives_bind]
    refine ⟨_, _, hresult, ?_⟩
    exact gives_mark_pure fun mark => .spreadAssign mark (.call callMark function results)
  · constructor
    · exact congrArg (Expr.spreadAssign Expr.noMark) herased
    · simp_all [Expr.text]
    · rfl

end Grammar

end DecisionLang
