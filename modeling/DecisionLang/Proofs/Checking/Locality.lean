import DecisionLang.Proofs.Checking.Independence

/-!
# Checking reads what a declaration refers to

Everything that the check of a root declaration looks up by name is a name that the declaration
refers to, or one that a declaration found in this way refers to. So a document can change
anywhere else without any effect on the check: `TypeEnv.check_local`.
-/

namespace DecisionLang

/-- Names that a declaration refers to, itself or through the declarations of such names. -/
inductive Document.ReliesOn (document : Document) (item : Declaration) : String → Prop
  | itself {name : String} (h : name ∈ item.referredNames) : ReliesOn document item name
  | through {name other : String} {found : Declaration} (hname : ReliesOn document item name)
      (hfound : document.find? name = some found) (h : other ∈ found.referredNames) :
      ReliesOn document item other

namespace TypeEnv

variable {env env' : TypeEnv} {item : Declaration}

/-- The names that a declaration relies on are closed under references. -/
theorem agrees_reliesOn (hrules : env'.rules = env.rules) (hnames : env.document.names.Nodup)
    (hnames' : env'.document.names.Nodup)
    (hsame : ∀ name, env.document.ReliesOn item name →
      env'.document.find? name = env.document.find? name) :
    env.Agrees env' (env.document.ReliesOn item) := by
  refine ⟨hrules, fun name hname => ?_, fun name hname found hfound => ?_⟩
  · rw [Document.called_of_nodup hnames', Document.called_of_nodup hnames, hsame name hname]
  · rw [Document.called_of_nodup hnames, Option.mem_toList] at hfound
    exact Declaration.refersAmong_iff.2 fun other hother => .through hname hfound hother

/-- A declaration is checked in the same way, with the same entries and the same findings, in all
documents in which the names that it relies on mean the same declarations, or none. -/
theorem check_local (hrules : env'.rules = env.rules) (hnames : env.document.names.Nodup)
    (hnames' : env'.document.names.Nodup) {index index' : Nat}
    (hitem : env.document.declarations[index]? = some item)
    (hitem' : env'.document.declarations[index']? = some item)
    (hsame : ∀ name, env.document.ReliesOn item name →
      env'.document.find? name = env.document.find? name) (log : Log) :
    env'.check [index'] log = env.check [index] log := by
  let again : Rerun := ⟨env, env', _, agrees_reliesOn hrules hnames hnames' hsame, {}⟩
  have hrefers : (Node.ofDeclaration item).RefersAmong again.named :=
    Declaration.refersAmong_iff.2 fun name hname => .itself hname
  have hfits : again.Fits (.ofDeclaration item) := fun node hnode =>
    ⟨hrefers node hnode, fun id _ => Findings.lacks_empty id⟩
  have hroot : again.Repeats (fun _ => True) (Check.root env item) (Check.root env' item)
      fun _ => True := Rerun.repeats_root hfits
  have hrun : ((Check.ownedBy item.name (Check.root env' item)).run { log }).2 =
      ((Check.ownedBy item.name (Check.root env item)).run { log }).2 :=
    congrArg Prod.snd (Rerun.run_ownedBy hroot item.name { log } nofun)
  rw [check_singleton hitem, check_singleton hitem', hrun]

/-! ### A function in two documents -/

def rateType : Declaration :=
  .record ⟨"Rate", ⟨"test.lexy", 1, 1⟩,
    [⟨0, "Value", ⟨"test.lexy", 2, 3⟩, .primitive .number, none⟩]⟩

/-- A function with a parameter of the record type, which also uses a name that means nothing. -/
def payFunction : Declaration :=
  .function ⟨"Pay", ⟨"test.lexy", 3, 1⟩,
    some ⟨⟨"test.lexy", 4, 3⟩,
      [⟨1, "Hourly", ⟨"test.lexy", 5, 5⟩, .named (NamePath.ofName "Rate"), none⟩]⟩, none,
    some ⟨⟨"test.lexy", 6, 3⟩, [.name ⟨2, ⟨"test.lexy", 7, 5⟩⟩ "Bonus"]⟩⟩

/-- The function is checked in the same way before and after the record type, among different
other declarations. -/
theorem check_local_payFunction :
    ∃ env env' : TypeEnv,
      env.document.names = ["Rate", "Pay", "Hours"] ∧ env'.document.names = ["Pay", "Rate"] ∧
      env'.rules = env.rules ∧ env.document.names.Nodup ∧ env'.document.names.Nodup ∧
      env.document.declarations[1]? = some payFunction ∧
      env'.document.declarations[0]? = some payFunction ∧
      (∀ name, env.document.ReliesOn payFunction name →
        env'.document.find? name = env.document.find? name) ∧
      env'.check [0] {} = env.check [1] {} ∧ (env.check [1] {}).2.entries.length = 1 := by
  let env : TypeEnv :=
    ⟨{ declarations := [rateType, payFunction, .enumeration (.empty "Hours" ⟨"test.lexy", 8, 1⟩)] },
      .standard⟩
  let env' : TypeEnv := ⟨{ declarations := [payFunction, rateType] }, .standard⟩
  have hpay : payFunction.referredNames = ["Rate", "Bonus"] := by decide +kernel
  have hrate : rateType.referredNames = [] := by decide +kernel
  have hrelies (name : String) (h : env.document.ReliesOn payFunction name) :
      name ∈ ["Rate", "Bonus"] := by
    induction h with
    | itself h => exact hpay ▸ h
    | through _ hfound h ih =>
      simp only [List.mem_cons, List.not_mem_nil, or_false] at ih
      rcases ih with rfl | rfl
      · obtain rfl : rateType = _ := Option.some.inj hfound
        rw [hrate] at h
        cases h
      · cases hfound
  have hsame (name : String) (h : env.document.ReliesOn payFunction name) :
      env'.document.find? name = env.document.find? name := by
    have hname := hrelies name h
    simp only [List.mem_cons, List.not_mem_nil, or_false] at hname
    rcases hname with rfl | rfl <;> rfl
  have hnames : env.document.names.Nodup := by decide
  have hnames' : env'.document.names.Nodup := by decide
  have hchecked : env'.check [0] {} = env.check [1] {} :=
    @check_local env env' payFunction rfl hnames hnames' 1 0 rfl rfl hsame {}
  exact ⟨env, env', rfl, rfl, rfl, hnames, hnames', rfl, rfl, hsame, hchecked, by decide +kernel⟩

end TypeEnv

end DecisionLang
