import Crystalline.Environment.Resolved

/-!
# Domains from variables in any order

Whether the variables are refused does not depend on their order.  When they are
taken, every order gives the same domains, and each defining variable its own, exactly
when no two of them name one domain.
-/

namespace Crystalline.Environment

open Text

variable {machine : Machine}

variable {seen files : VarPairs} {overlay : EnvOverlay} {vars order : VarPairs}

theorem fromSeen_eq_ok (taken : fromSeen machine seen files = .ok overlay) :
    ∃ state, Collected.takeAll machine {} seen = .ok state ∧
      resolveEnvDomains machine state.domainVars state.originVars state.reviewVars
        state.readersVars = .ok overlay.domains := by
  rw [fromSeen, bind_eq_ok] at taken
  obtain ⟨state, passed, taken⟩ := taken
  refine ⟨state, passed, ?_⟩
  split at taken
  · cases taken
  · obtain ⟨domains, resolved, taken⟩ := bind_eq_ok.mp taken
    cases app : githubAppFrom machine state.appVars with
    | error error =>
        rw [app] at taken
        cases taken
    | ok githubApp =>
        rw [app] at taken
        cases taken
        exact resolved

theorem fromSeen_isOk :
    (fromSeen machine seen files).isOk = true ↔
      ∃ state, Collected.takeAll machine {} seen = .ok state ∧
        state.database.validate.isOk = true ∧
        (resolveEnvDomains machine state.domainVars state.originVars state.reviewVars
          state.readersVars).isOk = true ∧
        (githubAppFrom machine state.appVars).isOk = true := by
  unfold fromSeen
  cases Collected.takeAll machine {} seen with
  | error error => exact iff_of_false (by rintro ⟨⟩) (by rintro ⟨_, ⟨⟩, -⟩)
  | ok state =>
      have only {holds : Collected → Prop} :
          (∃ other, (Except.ok state : Except Text Collected) = .ok other ∧ holds other) ↔
            holds state := by
        constructor
        · rintro ⟨_, ⟨⟩, held⟩
          exact held
        · exact fun held => ⟨state, rfl, held⟩
      rw [only]
      simp only [Except.bind]
      cases state.database.validate with
      | error error => exact iff_of_false (by rintro ⟨⟩) (by rintro ⟨⟨⟩, -⟩)
      | ok _ =>
          cases resolveEnvDomains machine state.domainVars state.originVars state.reviewVars
              state.readersVars with
          | error error => exact iff_of_false (by rintro ⟨⟩) (by rintro ⟨-, ⟨⟩, -⟩)
          | ok domains =>
              cases githubAppFrom machine state.appVars with
              | error error => exact iff_of_false (by rintro ⟨⟩) (by rintro ⟨-, -, ⟨⟩⟩)
              | ok app => exact iff_of_true rfl ⟨rfl, rfl, rfl⟩

theorem fromSeen_isOk_perm {seen order files : VarPairs} (perm : order.Perm seen)
    (distinct : (seen.map Prod.fst).Nodup) (isOk : (fromSeen machine seen files).isOk = true) :
    (fromSeen machine order files).isOk = true := by
  obtain ⟨state, passed, valid, resolved, app⟩ := fromSeen_isOk.mp isOk
  have passes : (Collected.takeAll machine {} order).isOk = true := by
    have taken := isOk_iff.mpr ⟨state, passed⟩
    rw [takeAll_isOk] at taken ⊢
    rw [← taken]
    exact perm.all_eq
  obtain ⟨other, passedOther⟩ := isOk_iff.mp passes
  have same := takeAll_perm perm distinct passedOther passed
  refine fromSeen_isOk.mpr ⟨other, passedOther, ?_, ?_, ?_⟩
  · rw [same.database]
    exact valid
  · rw [resolveEnvDomains_isOk] at resolved ⊢
    exact resolved.perm same.domainVars.symm same.originVars.symm same.reviewVars.symm
      same.readersVars.symm
  · rw [githubAppFrom_congr same.appVars]
    exact app

theorem fromVarsReading_isOk_perm (perm : order.Perm vars) (distinct : (vars.map Prod.fst).Nodup) :
    (fromVarsReading machine order).isOk = (fromVarsReading machine vars).isOk := by
  unfold fromVarsReading
  rcases @resolveFileSecrets_perm machine vars order perm distinct with
    ⟨error, refused, refusedOrder⟩ |
      ⟨seen, seenOrder, files, read, readOrder, seenPerm, seenDistinct, -⟩
  · rw [refused, refusedOrder]
  · rw [read, readOrder]
    have distinctOrder := (seenPerm.map Prod.fst).nodup_iff.mpr seenDistinct
    exact Bool.eq_iff_iff.mpr ⟨fromSeen_isOk_perm seenPerm.symm distinctOrder,
      fromSeen_isOk_perm seenPerm seenDistinct⟩

variable {vars : VarPairs} {domain changed : EnvDomain}

theorem sorted_heldOf (distinct : (vars.map Prod.fst).Nodup) (kind : VarKind) :
    Sorted (heldOf kind vars) kind := by
  refine ⟨fun var member => ?_, (List.filter_sublist.map Prod.fst).nodup distinct⟩
  have holds := (List.mem_filter.mp member).2
  simp only [Bool.and_eq_true, decide_eq_true_eq] at holds
  exact holds.1

theorem mem_heldOf {kind : VarKind} {var : Text × Text} :
    var ∈ heldOf kind vars ↔ var ∈ vars ∧ varKind var.1 = kind ∧ var.2 ≠ [] := by
  unfold heldOf
  rw [List.mem_filter]
  simp

/-- The variables that the domains of an overlay come of. -/
structure Source (machine : Machine) (vars : VarPairs) (state : Collected)
    (domains : Map EnvDomain) : Prop where
  isDomain : Sorted state.domainVars .domain
  isOrigin : Sorted state.originVars .origin
  isReview : Sorted state.reviewVars .review
  isReaders : Sorted state.readersVars .readers
  domainVars : ∀ var, var ∈ state.domainVars ↔ var ∈ vars ∧ varKind var.1 = .domain
  originVars : ∀ var, var ∈ state.originVars ↔ var ∈ vars ∧ varKind var.1 = .origin ∧ var.2 ≠ []
  reviewVars : ∀ var, var ∈ state.reviewVars ↔ var ∈ vars ∧ varKind var.1 = .review ∧ var.2 ≠ []
  readersVars : ∀ var, var ∈ state.readersVars ↔
    var ∈ vars ∧ varKind var.1 = .readers ∧ var.2 ≠ []
  resolved : resolveEnvDomains machine state.domainVars state.originVars state.reviewVars
    state.readersVars = .ok domains

theorem source_of_seen {vars seen files : VarPairs} (distinct : (seen.map Prod.fst).Nodup)
    (members : ∀ var, (varKind var.1).ofDomain = true → (var ∈ seen ↔ var ∈ vars))
    (taken : fromSeen machine seen files = .ok overlay) :
    ∃ state, Collected.takeAll machine {} seen = .ok state ∧
      Source machine vars state overlay.domains := by
  obtain ⟨state, passed, resolved⟩ := fromSeen_eq_ok taken
  obtain ⟨domains, origins, reviews, readers, -, -⟩ := takeAll_fields passed
  rw [List.nil_append] at domains origins reviews readers
  have held {kind : VarKind} (isDomain : kind.ofDomain = true) (var : Text × Text) :
      var ∈ heldOf kind seen ↔ var ∈ vars ∧ varKind var.1 = kind ∧ var.2 ≠ [] := by
    rw [mem_heldOf]
    refine and_congr_left fun both => members var ?_
    rw [both.1]
    exact isDomain
  refine ⟨state, passed, ?_, ?_, ?_, ?_, ?_, ?_, ?_, ?_, resolved⟩
  · rw [domains]
    refine ⟨fun var member => ?_, (List.filter_sublist.map Prod.fst).nodup distinct⟩
    simpa using (List.mem_filter.mp member).2
  · rw [origins]
    exact sorted_heldOf distinct .origin
  · rw [reviews]
    exact sorted_heldOf distinct .review
  · rw [readers]
    exact sorted_heldOf distinct .readers
  · intro var
    rw [domains, List.mem_filter, decide_eq_true_eq]
    refine and_congr_left fun isDomain => members var ?_
    rw [isDomain]
    rfl
  · rw [origins]
    exact held rfl
  · rw [reviews]
    exact held rfl
  · rw [readers]
    exact held rfl

theorem sources (perm : order.Perm vars) (distinct : (vars.map Prod.fst).Nodup)
    {overlay other : EnvOverlay} (taken : fromVarsReading machine vars = .ok overlay)
    (takenOrder : fromVarsReading machine order = .ok other) :
    ∃ state stateOrder, Source machine vars state overlay.domains ∧
      Source machine vars stateOrder other.domains ∧ SamePass stateOrder state := by
  unfold fromVarsReading at taken takenOrder
  rcases @resolveFileSecrets_perm machine vars order perm distinct with
    ⟨error, refused, -⟩ | ⟨seen, seenOrder, files, read, readOrder, seenPerm, seenDistinct, members⟩
  · rw [refused] at taken
    cases taken
  · rw [read] at taken
    rw [readOrder] at takenOrder
    have distinctOrder := (seenPerm.map Prod.fst).nodup_iff.mpr seenDistinct
    obtain ⟨state, passed, source⟩ := source_of_seen seenDistinct members taken
    obtain ⟨stateOrder, passedOrder, sourceOrder⟩ := source_of_seen distinctOrder
      (fun var kind => seenPerm.mem_iff.trans (members var kind)) takenOrder
    exact ⟨state, stateOrder, source, sourceOrder,
      takeAll_perm seenPerm seenDistinct passedOrder passed⟩

/-- The domains of an overlay do not depend on the order of the variables: each
defining variable has its own, and each attaching one marks that of its base. -/
structure Settled (machine : Machine) (vars : VarPairs) (overlay : EnvOverlay) : Prop where
  anyOrder : ∀ order other, order.Perm vars → fromVarsReading machine order = .ok other →
    ∀ name, other.domains.lookup name = overlay.domains.lookup name
  ownDomain : ∀ var value, (var, value) ∈ vars → varKind var = .domain →
    ∃ domain, overlay.domains.lookup (domainName (fragmentOf var)) = some domain ∧
      domain.var = var ∧ domain.entry.path = expandTilde machine value
  origins : ∀ var value, (var, value) ∈ vars → varKind var = .origin → value ≠ [] →
    ∃ domain origin,
      overlay.domains.lookup (domainName (originAttachment.base var)) = some domain ∧
      domain.var = domainPrefix ++ originAttachment.base var ∧
      parseEnvOrigin value = .ok origin ∧ domain.entry.origin = some origin
  reviews : ∀ var value, (var, value) ∈ vars → varKind var = .review → value ≠ [] →
    ∃ domain, overlay.domains.lookup (domainName (reviewAttachment.base var)) = some domain ∧
      domain.var = domainPrefix ++ reviewAttachment.base var ∧
      domain.entry.review = some .overlay
  readers : ∀ var value, (var, value) ∈ vars → varKind var = .readers → value ≠ [] →
    ∃ domain readers,
      overlay.domains.lookup (domainName (readersAttachment.base var)) = some domain ∧
      domain.var = domainPrefix ++ readersAttachment.base var ∧
      Readers.parse value = some readers ∧ domain.readers = some readers

section

variable {attachment : Attachment} {fragments : Map Text} {name : Text}
  (gives : attachment.Gives fragments vars name domain changed)
include gives

theorem Attachment.Gives.applied (single : attachment.Single fragments vars) {var : Text × Text}
    (member : var ∈ vars) (reaches : attachment.target fragments var = some name) :
    attachment.apply var domain = .ok changed := by
  rcases gives with ⟨other, otherMember, otherReaches, applies⟩ | ⟨others, -⟩
  · obtain rfl := single name var member other otherMember reaches otherReaches
    exact applies
  · exact absurd reaches (others var member)

theorem Attachment.Gives.keeps (relates : EnvDomain → EnvDomain → Prop)
    (refl : relates domain domain)
    (changes : ∀ var, attachment.apply var domain = .ok changed → relates domain changed) :
    relates domain changed := by
  rcases gives with ⟨var, -, -, applies⟩ | ⟨-, rfl⟩
  · exact changes var applies
  · exact refl

end

section

variable {vars : VarPairs} {state : Collected} {domains : Map EnvDomain}

/-- The domain of a defining variable, through the three attachments. -/
theorem Source.made (source : Source machine vars state domains) (apart : Apart state.domainVars)
    {var : Text × Text} (member : var ∈ state.domainVars) :
    ∃ located reviewed domain,
      domains.lookup (domainName (fragmentOf var.1)) = some domain ∧
      (originAttachment.Gives (definedFragments state.domainVars) state.originVars
          (domainName (fragmentOf var.1)) (domainOf machine var).2 located ∧
        reviewAttachment.Gives (definedFragments state.domainVars) state.reviewVars
          (domainName (fragmentOf var.1)) located reviewed ∧
        readersAttachment.Gives (definedFragments state.domainVars) state.readersVars
          (domainName (fragmentOf var.1)) reviewed domain) ∧
      domain.var = var.1 ∧ domain.entry.path = expandTilde machine var.2 ∧
      domain.entry.origin = located.entry.origin ∧
      domain.entry.review = reviewed.entry.review := by
  obtain ⟨located, reviewed, domain, found, origin, review, readers⟩ :=
    resolveEnvDomains_makes source.isDomain source.isOrigin source.isReview source.isReaders apart
      source.resolved member
  have first : located.var = var.1 ∧ located.entry.path = expandTilde machine var.2 := by
    refine origin.keeps (fun before after => after.var = before.var ∧
      after.entry.path = before.entry.path) ⟨rfl, rfl⟩ ?_
    intro other applies
    obtain ⟨_, -, rfl⟩ := origin_apply.mp applies
    exact ⟨rfl, rfl⟩
  have second : reviewed.var = located.var ∧ reviewed.entry.path = located.entry.path ∧
      reviewed.entry.origin = located.entry.origin := by
    refine review.keeps (fun before after => after.var = before.var ∧
      after.entry.path = before.entry.path ∧ after.entry.origin = before.entry.origin)
      ⟨rfl, rfl, rfl⟩ ?_
    intro other applies
    obtain ⟨-, rfl⟩ := review_apply.mp applies
    exact ⟨rfl, rfl, rfl⟩
  have third : domain.var = reviewed.var ∧ domain.entry = reviewed.entry := by
    refine readers.keeps (fun before after => after.var = before.var ∧
      after.entry = before.entry) ⟨rfl, rfl⟩ ?_
    intro other applies
    obtain ⟨-, _, -, rfl⟩ := readers_apply.mp applies
    exact ⟨rfl, rfl⟩
  refine ⟨located, reviewed, domain, found, ⟨origin, review, readers⟩, ?_, ?_, ?_, ?_⟩
  · rw [third.1, second.1, first.1]
  · rw [third.2, second.2.1, first.2]
  · rw [third.2, second.2.2]
  · rw [third.2]

theorem Source.defining (source : Source machine vars state domains) {fragment : Text}
    (known : Known state.domainVars fragment) :
    ∃ var ∈ state.domainVars, fragmentOf var.1 = fragment ∧ var.1 = domainPrefix ++ fragment := by
  obtain ⟨var, member, rfl⟩ := known
  have kind : (varKind var.1).ofDomain = true := by
    rw [source.isDomain.kinds var member]
    rfl
  obtain ⟨fragment, named, -⟩ := varKind_ofDomain kind
  refine ⟨var, member, rfl, ?_⟩
  rw [named, fragmentOf_append]

/-- Where no two variables name one domain, the domains are settled. -/
theorem settled_of_apart (distinct : (vars.map Prod.fst).Nodup) {overlay : EnvOverlay}
    (taken : fromVarsReading machine vars = .ok overlay)
    (source : Source machine vars state overlay.domains) (apart : Apart state.domainVars) :
    Settled machine vars overlay := by
  have admitted := resolveEnvDomains_isOk.mp (isOk_iff.mpr ⟨_, source.resolved⟩)
  refine ⟨?_, ?_, ?_, ?_, ?_⟩
  · intro order other perm takenOrder
    obtain ⟨one, two, first, second, same⟩ := sources perm distinct taken takenOrder
    have apartOne : Apart one.domainVars := by
      intro var member also alsoMember
      rw [first.domainVars, ← source.domainVars] at member alsoMember
      exact apart var member also alsoMember
    exact resolveEnvDomains_perm first.isDomain first.isOrigin first.isReview first.isReaders
      same.domainVars same.originVars same.reviewVars same.readersVars apartOne first.resolved
      second.resolved
  · intro var value member kind
    obtain ⟨_, _, domain, found, -, isVar, path, -, -⟩ :=
      source.made apart ((source.domainVars (var, value)).mpr ⟨member, kind⟩)
    exact ⟨domain, found, isVar, path⟩
  · intro var value member kind nonempty
    have held := (source.originVars (var, value)).mpr ⟨member, kind, nonempty⟩
    obtain ⟨defining, definingMember, base, named⟩ := source.defining (admitted.origins _ held).1
    obtain ⟨located, _, domain, found, ⟨gives, -, -⟩, isVar, -, origin, -⟩ :=
      source.made apart definingMember
    rw [base] at found gives
    have applies := gives.applied (apart.single origin_reads source.isOrigin.kinds
      source.isOrigin.distinct) held (target_eq_some.mpr ⟨(admitted.origins _ held).1, rfl⟩)
    obtain ⟨parsed, parses, rfl⟩ := origin_apply.mp applies
    exact ⟨domain, parsed, found, isVar.trans named, parses, origin⟩
  · intro var value member kind nonempty
    have held := (source.reviewVars (var, value)).mpr ⟨member, kind, nonempty⟩
    obtain ⟨defining, definingMember, base, named⟩ := source.defining (admitted.reviews _ held).1
    obtain ⟨_, reviewed, domain, found, ⟨-, gives, -⟩, isVar, -, -, review⟩ :=
      source.made apart definingMember
    rw [base] at found gives
    have applies := gives.applied (apart.single review_reads source.isReview.kinds
      source.isReview.distinct) held (target_eq_some.mpr ⟨(admitted.reviews _ held).1, rfl⟩)
    obtain ⟨-, rfl⟩ := review_apply.mp applies
    exact ⟨domain, found, isVar.trans named, review⟩
  · intro var value member kind nonempty
    have held := (source.readersVars (var, value)).mpr ⟨member, kind, nonempty⟩
    obtain ⟨defining, definingMember, base, named⟩ := source.defining (admitted.readers _ held).1
    obtain ⟨_, _, domain, found, ⟨-, -, gives⟩, isVar, -, -, -⟩ := source.made apart definingMember
    rw [base] at found gives
    have applies := gives.applied (apart.single readers_reads source.isReaders.kinds
      source.isReaders.distinct) held (target_eq_some.mpr ⟨(admitted.readers _ held).1, rfl⟩)
    obtain ⟨-, readers, parses, rfl⟩ := readers_apply.mp applies
    exact ⟨_, readers, found, isVar.trans named, parses, rfl⟩

end

/-- No two variables that define a domain name the same one: their fragments differ
in more than the case of letters. -/
def OneDomainEach (vars : VarPairs) : Prop :=
  ∀ var ∈ vars, ∀ other ∈ vars, varKind var.1 = .domain → varKind other.1 = .domain →
    domainName (fragmentOf var.1) = domainName (fragmentOf other.1) → var = other

/-- Every order of the variables is refused or none is; where they are taken, the
domains are settled exactly when no two variables name one. -/
theorem settled_iff (machine : Machine) {vars : VarPairs} (distinct : (vars.map Prod.fst).Nodup) :
    (∀ order, order.Perm vars →
      (fromVarsReading machine order).isOk = (fromVarsReading machine vars).isOk) ∧
    ∀ overlay, fromVarsReading machine vars = .ok overlay →
      (Settled machine vars overlay ↔ OneDomainEach vars) := by
  refine ⟨fun order perm => fromVarsReading_isOk_perm perm distinct, ?_⟩
  intro overlay taken
  obtain ⟨state, -, source, -, -⟩ := sources (.refl vars) distinct taken taken
  constructor
  · intro settled var member other otherMember kind otherKind same
    obtain ⟨domain, found, isVar, -⟩ := settled.ownDomain var.1 var.2 member kind
    obtain ⟨again, foundAgain, isOther, -⟩ :=
      settled.ownDomain other.1 other.2 otherMember otherKind
    rw [← same, found] at foundAgain
    obtain rfl := Option.some.inj foundAgain
    exact List.inj_on_of_nodup_map distinct member otherMember (isVar.symm.trans isOther)
  · intro each
    apply settled_of_apart distinct taken source
    intro var member other otherMember same
    obtain ⟨among, kind⟩ := (source.domainVars var).mp member
    obtain ⟨otherAmong, otherKind⟩ := (source.domainVars other).mp otherMember
    exact each var among other otherAmong kind otherKind same

/-- A machine without a home and without files, on which every setting holds. -/
def bare : Machine where
  home := none
  read _ := .error "no such file".toList
  settingProblem _ _ := none
  publicUrlWarning _ := none
  keyProblem _ := none

def teamVars : VarPairs :=
  [("PATH".toList, "/bin".toList),
    ("CRYSTALLINE_DOMAIN_TEAM_ORIGIN".toList, "acme/kb@main".toList),
    ("CRYSTALLINE_DOMAIN_TEAM".toList, "/k/team".toList),
    ("CRYSTALLINE_DOMAIN_DOCS".toList, "/k/docs".toList)]

theorem settled_iff_team :
    ∃ overlay, fromVarsReading bare teamVars = .ok overlay ∧ Settled bare teamVars overlay := by
  have isOk : (fromVarsReading bare teamVars).isOk = true := by decide
  obtain ⟨overlay, taken⟩ := isOk_iff.mp isOk
  have distinct : (teamVars.map Prod.fst).Nodup := by decide
  have each : OneDomainEach teamVars := by
    unfold OneDomainEach
    decide
  exact ⟨overlay, taken, ((settled_iff bare distinct).2 overlay taken).mpr each⟩

/-- The path of a domain, when the variables are taken. -/
def pathOf (vars : VarPairs) (name : Text) : Option Text :=
  ((fromVarsReading bare vars).toOption.bind fun overlay => overlay.domains.lookup name).map
    fun domain => domain.entry.path

def upperTeam : Text × Text := ("CRYSTALLINE_DOMAIN_TEAM".toList, "/k/upper".toList)

def lowerTeam : Text × Text := ("CRYSTALLINE_DOMAIN_team".toList, "/k/lower".toList)

/-- Of two variables whose names differ in case the later one takes the domain, so
the path depends on the order. -/
theorem later_case_replaces :
    ([upperTeam, lowerTeam].map Prod.fst).Nodup ∧
      [lowerTeam, upperTeam].Perm [upperTeam, lowerTeam] ∧
      pathOf [upperTeam, lowerTeam] "team".toList = some "/k/lower".toList ∧
      pathOf [lowerTeam, upperTeam] "team".toList = some "/k/upper".toList := by
  refine ⟨by decide, .swap _ _ _, by decide, by decide⟩

end Crystalline.Environment
