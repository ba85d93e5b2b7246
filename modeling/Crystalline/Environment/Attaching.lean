import Crystalline.Environment.Passes

/-!
# Attaching to domains

The loop over the variables of one attachment as what it does to one domain: whether
the loop takes all of them, what stays of a domain, and what the one variable that
reaches it makes of it.
-/

namespace Crystalline.Environment

open Text
open Keyed (collect)

variable {machine : Machine}

/-- A domain variable that defines a domain. -/
def Defines (var : Text × Text) : Prop :=
  fragmentOf var.1 ≠ [] ∧
    (fragmentOf var.1).all (fun char => isAsciiAlphanumeric char || char == '_') = true ∧
    trim var.2 ≠ []

/-- The domain that a variable defines, under its name. -/
def domainOf (machine : Machine) (var : Text × Text) : Text × EnvDomain :=
  (domainName (fragmentOf var.1),
    { var := var.1, readers := none
      entry := { path := expandTilde machine var.2, origin := none, review := none } })

/-- The name of a variable's domain, under the fragment. -/
def fragmentNameOf (var : Text × Text) : Text × Text :=
  (fragmentOf var.1, domainName (fragmentOf var.1))

theorem define_eq (machine : Machine) (state : Defined) (vars : VarPairs) :
    (∀ var ∈ vars, Defines var) ∧
      state.define machine vars = .ok
        { domains := (vars.map (domainOf machine)).foldl
            (fun map pair => map.insert pair.1 pair.2) state.domains
          fragments := (vars.map fragmentNameOf).foldl
            (fun map pair => map.insert pair.1 pair.2) state.fragments } ∨
    (∃ var ∈ vars, ¬ Defines var) ∧ (state.define machine vars).isOk = false := by
  induction vars generalizing state with
  | nil => exact .inl ⟨by simp, rfl⟩
  | cons var vars induction =>
      obtain ⟨name, value⟩ := var
      rw [Defined.define]
      simp only
      by_cases named : ((fragmentOf name).isEmpty ||
          !(fragmentOf name).all fun char => isAsciiAlphanumeric char || char == '_') = true
      · rw [if_pos named]
        refine .inr ⟨⟨(name, value), List.mem_cons_self, ?_⟩, rfl⟩
        rintro ⟨nonempty, letters, -⟩
        rcases Bool.or_eq_true_iff.mp named with empty | other
        · exact nonempty (List.isEmpty_iff.mp empty)
        · simp only at letters
          rw [letters] at other
          cases other
      · rw [if_neg named]
        by_cases blank : (trim value).isEmpty = true
        · rw [if_pos blank]
          refine .inr ⟨⟨(name, value), List.mem_cons_self, ?_⟩, rfl⟩
          rintro ⟨-, -, path⟩
          exact path (List.isEmpty_iff.mp blank)
        · rw [if_neg blank]
          have defines : Defines (name, value) := by
            rw [Bool.or_eq_true_iff, not_or] at named
            refine ⟨?_, ?_, ?_⟩
            · exact fun empty => named.1 (List.isEmpty_iff.mpr empty)
            · simpa only [Bool.not_eq_true', Bool.not_eq_false] using named.2
            · exact fun empty => blank (List.isEmpty_iff.mpr empty)
          rcases induction _ with ⟨all, rest⟩ | ⟨⟨other, member, fails⟩, refused⟩
          · exact .inl ⟨List.forall_mem_cons.mpr ⟨defines, all⟩, rest⟩
          · exact .inr ⟨⟨other, List.mem_cons_of_mem _ member, fails⟩, refused⟩

variable {attachment : Attachment} {fragments : Map Text}

/-- The name of the domain that a variable attaches to. -/
def Attachment.target (attachment : Attachment) (fragments : Map Text) (var : Text × Text) :
    Option Text :=
  fragments.lookup (attachment.base var.1)

/-- What the value of a variable makes of a domain. -/
def Attachment.apply (attachment : Attachment) (var : Text × Text) (domain : EnvDomain) :
    Except Text EnvDomain :=
  attachment.set var.1 (attachment.base var.1) var.2 domain

/-- Every name of a fragment has its domain. -/
def Recorded (fragments : Map Text) (domains : Map EnvDomain) : Prop :=
  ∀ base name, fragments.lookup base = some name → ∃ domain, domains.lookup name = some domain

section

variable {domains : Map EnvDomain} (recorded : Recorded fragments domains)
include recorded

theorem Recorded.insert (name : Text) (domain : EnvDomain) :
    Recorded fragments (domains.insert name domain) := by
  intro base other found
  obtain ⟨held, lookup⟩ := recorded base other found
  by_cases same : other = name
  · subst same
    exact ⟨domain, AList.lookup_insert _⟩
  · exact ⟨held, by rw [AList.lookup_insert_ne same, lookup]⟩

/-- One turn of the loop. -/
theorem attach_cons (var : Text × Text) (vars : VarPairs) :
    (attachment.target fragments var = none ∧
      (attachment.attach fragments domains (var :: vars)).isOk = false) ∨
    ∃ name domain, attachment.target fragments var = some name ∧
      domains.lookup name = some domain ∧
      ((∃ error, attachment.apply var domain = .error error ∧
        (attachment.attach fragments domains (var :: vars)).isOk = false) ∨
      ∃ changed, attachment.apply var domain = .ok changed ∧
        attachment.attach fragments domains (var :: vars) =
          attachment.attach fragments (domains.insert name changed) vars) := by
  obtain ⟨var, value⟩ := var
  rw [Attachment.attach]
  unfold Attachment.target Attachment.apply
  simp only
  cases found : fragments.lookup (attachment.base var) with
  | none => exact .inl ⟨rfl, rfl⟩
  | some name =>
      obtain ⟨domain, held⟩ := recorded _ name found
      refine .inr ⟨name, domain, rfl, held, ?_⟩
      simp only [held]
      cases attachment.set var (attachment.base var) value domain with
      | error error => exact .inl ⟨error, rfl, rfl⟩
      | ok changed => exact .inr ⟨changed, rfl, rfl⟩

end

variable {domains out : Map EnvDomain} {vars : VarPairs} {name : Text}

/-- What is true of a domain and what any attachments make of it. -/
theorem attach_keeps (relates : EnvDomain → EnvDomain → Prop)
    (refl : ∀ domain, relates domain domain)
    (trans : ∀ {one two three}, relates one two → relates two three → relates one three)
    (changes : ∀ {var domain changed}, attachment.apply var domain = .ok changed →
      relates domain changed) (recorded : Recorded fragments domains)
    (attached : attachment.attach fragments domains vars = .ok out) (name : Text) :
    Option.Rel relates (domains.lookup name) (out.lookup name) := by
  induction vars generalizing domains with
  | nil =>
      cases attached
      cases out.lookup name with
      | none => exact .none
      | some domain => exact .some (refl domain)
  | cons var vars induction =>
      rcases attach_cons recorded var vars with ⟨-, refused⟩ |
        ⟨target, domain, -, held, ⟨-, -, refused⟩ | ⟨changed, applies, next⟩⟩
      · rw [attached] at refused
        cases refused
      · rw [attached] at refused
        cases refused
      · rw [next] at attached
        have later := induction (recorded.insert target changed) attached
        by_cases same : name = target
        · subst same
          rw [AList.lookup_insert] at later
          rw [held]
          cases found : out.lookup name with
          | none =>
              rw [found] at later
              cases later
          | some final =>
              rw [found] at later
              cases later with
              | some related => exact .some (trans (changes applies) related)
        · rwa [AList.lookup_insert_ne same] at later

/-- The loop takes its variables exactly when each reaches a domain that takes it. -/
theorem attach_isOk (fits : Text × Text → EnvDomain → Prop)
    (decides : ∀ var domain, (attachment.apply var domain).isOk = true ↔ fits var domain)
    (stable : ∀ {one domain changed}, attachment.apply one domain = .ok changed →
      ∀ other, fits other changed ↔ fits other domain) {domains : Map EnvDomain}
    (recorded : Recorded fragments domains) :
    (attachment.attach fragments domains vars).isOk = true ↔
      ∀ var ∈ vars, ∃ name domain, attachment.target fragments var = some name ∧
        domains.lookup name = some domain ∧ fits var domain := by
  induction vars generalizing domains with
  | nil => exact iff_of_true rfl (by simp)
  | cons var vars induction =>
      rw [List.forall_mem_cons]
      rcases attach_cons recorded var vars with ⟨unknown, refused⟩ |
        ⟨target, domain, known, held, ⟨error, fails, refused⟩ | ⟨changed, applies, next⟩⟩
      · rw [refused]
        refine iff_of_false (by simp) ?_
        rintro ⟨⟨name, _, found, -⟩, -⟩
        rw [unknown] at found
        cases found
      · rw [refused]
        refine iff_of_false (by simp) ?_
        rintro ⟨⟨name, other, found, lookup, fit⟩, -⟩
        obtain rfl := Option.some.inj (known.symm.trans found)
        obtain rfl := Option.some.inj (held.symm.trans lookup)
        have taken := (decides var domain).mpr fit
        rw [fails] at taken
        cases taken
      · have fit : fits var domain := (decides var domain).mp (by rw [applies]; rfl)
        rw [next, induction (recorded.insert target changed)]
        constructor
        · intro rest
          refine ⟨⟨target, domain, known, held, fit⟩, fun other member => ?_⟩
          obtain ⟨name, found, reaches, lookup, fits⟩ := rest other member
          by_cases same : name = target
          · subst same
            rw [AList.lookup_insert] at lookup
            obtain rfl := Option.some.inj lookup
            exact ⟨name, domain, reaches, held, (stable applies other).mp fits⟩
          · rw [AList.lookup_insert_ne same] at lookup
            exact ⟨name, found, reaches, lookup, fits⟩
        · rintro ⟨-, rest⟩ other member
          obtain ⟨name, found, reaches, lookup, fits⟩ := rest other member
          by_cases same : name = target
          · subst same
            obtain rfl := Option.some.inj (held.symm.trans lookup)
            exact ⟨name, changed, reaches, AList.lookup_insert _, (stable applies other).mpr fits⟩
          · exact ⟨name, found, reaches, by rw [AList.lookup_insert_ne same, lookup], fits⟩

/-- A variable leaves its mark on the domain it reaches, whatever comes after it. -/
theorem attach_marks (marked : EnvDomain → Prop)
    (marks : ∀ {var domain changed}, attachment.apply var domain = .ok changed → marked changed)
    (recorded : Recorded fragments domains)
    (attached : attachment.attach fragments domains vars = .ok out) {var : Text × Text}
    (member : var ∈ vars) (reaches : attachment.target fragments var = some name)
    {final : EnvDomain} (found : out.lookup name = some final) : marked final := by
  induction vars generalizing domains with
  | nil => cases member
  | cons first vars induction =>
      rcases attach_cons recorded first vars with ⟨-, refused⟩ |
        ⟨target, domain, known, held, ⟨-, -, refused⟩ | ⟨changed, applies, next⟩⟩
      · rw [attached] at refused
        cases refused
      · rw [attached] at refused
        cases refused
      · rw [next] at attached
        rcases List.mem_cons.mp member with rfl | later
        · obtain rfl := Option.some.inj (known.symm.trans reaches)
          have kept := attach_keeps (fun before after => marked before → marked after)
            (fun _ held => held) (fun first second held => second (first held))
            (fun applies _ => marks applies) (recorded.insert target changed) attached target
          rw [AList.lookup_insert, found] at kept
          cases kept with
          | some related => exact related (marks applies)
        · exact induction (recorded.insert target changed) attached later

section

variable (recorded : Recorded fragments domains)
  (attached : attachment.attach fragments domains vars = .ok out)
include recorded attached

theorem attach_other (others : ∀ var ∈ vars, attachment.target fragments var ≠ some name) :
    out.lookup name = domains.lookup name := by
  induction vars generalizing domains with
  | nil =>
      cases attached
      rfl
  | cons first vars induction =>
      rcases attach_cons recorded first vars with ⟨-, refused⟩ |
        ⟨target, domain, known, held, ⟨-, -, refused⟩ | ⟨changed, applies, next⟩⟩
      · rw [attached] at refused
        cases refused
      · rw [attached] at refused
        cases refused
      · rw [next] at attached
        rw [induction (recorded.insert target changed) attached fun var member =>
          others var (List.mem_cons_of_mem _ member)]
        apply AList.lookup_insert_ne
        rintro rfl
        exact others first List.mem_cons_self known

theorem attach_absent (absent : domains.lookup name = none) : out.lookup name = none := by
  rw [attach_other recorded attached, absent]
  intro var _ reaches
  obtain ⟨domain, held⟩ := recorded _ _ reaches
  rw [absent] at held
  cases held

end

/-- What the variables of an attachment make of the domain of a name that one of
them reaches at most. -/
def Attachment.Gives (attachment : Attachment) (fragments : Map Text) (vars : VarPairs)
    (name : Text) (domain changed : EnvDomain) : Prop :=
  (∃ var ∈ vars, attachment.target fragments var = some name ∧
    attachment.apply var domain = .ok changed) ∨
  (∀ var ∈ vars, attachment.target fragments var ≠ some name) ∧ changed = domain

theorem attach_gives (recorded : Recorded fragments domains)
    (attached : attachment.attach fragments domains vars = .ok out) (distinct : vars.Nodup)
    (single : ∀ var ∈ vars, ∀ other ∈ vars,
      attachment.target fragments var = some name →
        attachment.target fragments other = some name → var = other) {domain : EnvDomain}
    (held : domains.lookup name = some domain) :
    ∃ changed, out.lookup name = some changed ∧
      attachment.Gives fragments vars name domain changed := by
  induction vars generalizing domains with
  | nil =>
      cases attached
      exact ⟨domain, held, .inr ⟨by simp, rfl⟩⟩
  | cons first vars induction =>
      obtain ⟨notLater, distinctLater⟩ := List.nodup_cons.mp distinct
      rcases attach_cons recorded first vars with ⟨-, refused⟩ |
        ⟨target, reached, known, lookup, ⟨-, -, refused⟩ | ⟨changed, applies, next⟩⟩
      · rw [attached] at refused
        cases refused
      · rw [attached] at refused
        cases refused
      · rw [next] at attached
        have recordedNext := recorded.insert target changed
        by_cases same : name = target
        · subst same
          obtain rfl := Option.some.inj (held.symm.trans lookup)
          have others : ∀ var ∈ vars, attachment.target fragments var ≠ some name := by
            intro var member reaches
            rw [single first List.mem_cons_self var (List.mem_cons_of_mem _ member) known
              reaches] at notLater
            exact notLater member
          refine ⟨changed, ?_, .inl ⟨first, List.mem_cons_self, known, applies⟩⟩
          rw [attach_other recordedNext attached others, AList.lookup_insert]
        · rw [← AList.lookup_insert_ne same] at held
          obtain ⟨final, found, gives⟩ := induction recordedNext attached distinctLater
            (fun var member other otherMember => single var (List.mem_cons_of_mem _ member) other
              (List.mem_cons_of_mem _ otherMember)) held
          refine ⟨final, found, ?_⟩
          rcases gives with ⟨var, member, reaches, applies⟩ | ⟨others, unchanged⟩
          · exact .inl ⟨var, List.mem_cons_of_mem _ member, reaches, applies⟩
          · refine .inr ⟨List.forall_mem_cons.mpr ⟨?_, others⟩, unchanged⟩
            rw [known]
            exact fun equal => same (Option.some.inj equal).symm

/-- A name is reached by one variable at most. -/
def Attachment.Single (attachment : Attachment) (fragments : Map Text) (vars : VarPairs) : Prop :=
  ∀ name, ∀ var ∈ vars, ∀ other ∈ vars, attachment.target fragments var = some name →
    attachment.target fragments other = some name → var = other

variable {vars order : VarPairs}

theorem Attachment.Gives.unique (perm : order.Perm vars) (single : attachment.Single fragments vars)
    {domain changed other : EnvDomain} (gives : attachment.Gives fragments vars name domain changed)
    (also : attachment.Gives fragments order name domain other) : other = changed := by
  rcases gives with ⟨var, member, reaches, applies⟩ | ⟨others, rfl⟩ <;>
    rcases also with ⟨second, secondMember, secondReaches, secondApplies⟩ | ⟨none, rfl⟩
  · obtain rfl := single name var member second (perm.subset secondMember) reaches secondReaches
    exact Except.ok.inj (secondApplies.symm.trans applies)
  · exact absurd reaches (none var (perm.symm.subset member))
  · exact absurd secondReaches (others second (perm.subset secondMember))
  · rfl

/-- Where each name is reached by one variable at most, the loop makes the same of the
same domains in every order. -/
theorem attach_perm {other : Map Text} (sameFragments : ∀ base, other.lookup base =
      fragments.lookup base) {domains domains' out out' : Map EnvDomain}
    (sameDomains : ∀ name, domains'.lookup name = domains.lookup name) (perm : order.Perm vars)
    (distinct : vars.Nodup) (single : attachment.Single fragments vars)
    (recorded : Recorded fragments domains)
    (attached : attachment.attach fragments domains vars = .ok out)
    (attached' : attachment.attach other domains' order = .ok out') (name : Text) :
    out'.lookup name = out.lookup name := by
  have targets (var : Text × Text) : attachment.target other var =
      attachment.target fragments var := sameFragments _
  have recorded' : Recorded other domains' := by
    intro base name found
    rw [sameFragments] at found
    rw [sameDomains]
    exact recorded base name found
  have single' : attachment.Single other order := by
    intro name var member second secondMember reaches secondReaches
    rw [targets] at reaches secondReaches
    exact single name var (perm.subset member) second (perm.subset secondMember) reaches
      secondReaches
  cases held : domains.lookup name with
  | none =>
      rw [attach_absent recorded attached held,
        attach_absent recorded' attached' ((sameDomains name).trans held)]
  | some domain =>
      obtain ⟨changed, found, gives⟩ :=
        attach_gives recorded attached distinct (single name) held
      obtain ⟨changed', found', gives'⟩ := attach_gives recorded' attached'
        (perm.nodup_iff.mpr distinct) (single' name) ((sameDomains name).trans held)
      have same : attachment.Gives fragments order name domain changed' := by
        simpa only [Attachment.Gives, targets] using gives'
      rw [found, found', gives.unique perm single same]

end Crystalline.Environment
