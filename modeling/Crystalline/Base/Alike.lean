import Crystalline.Base.Readers

/-!
# Where the two readers agree

A public base is read by the url parser for its origin and by hand for its base
path.  The two paths are one exactly on the addresses `readsAlike` tells; the
origin is the url's on every accepted address, and routes stay on it.
-/

namespace Crystalline.Base

open Text Whatwg

section Scheme

variable {char : Char} {text : Text}

theorem mem_tidyStart (member : char ∈ text) (visible : isC0ControlOrSpace char = false) :
    char ∈ tidyStart text := by
  refine List.mem_filter.mpr ⟨?_, by simp [isTabOrNewline_of_visible visible]⟩
  rw [← List.takeWhile_append_dropWhile (p := isC0ControlOrSpace) (l := text)] at member
  rcases List.mem_append.mp member with stripped | kept
  · rw [List.mem_takeWhile_imp stripped] at visible
    cases visible
  · exact kept

theorem cutsHost_of_isScheme (scheme : isScheme (tidyStart text) = true) :
    ∀ char ∈ text, cutsHost char = false := by
  intro char member
  rw [cutsHost, decide_eq_false_iff_not]
  intro cuts
  have facts : isC0ControlOrSpace char = false ∧
      (isAsciiAlphanumeric char || decide (char ∈ ['+', '-', '.'])) = false := by
    simp only [List.mem_cons, List.not_mem_nil, or_false] at cuts
    rcases cuts with rfl | rfl | rfl <;> decide
  have inside := mem_tidyStart member facts.1
  have allowed := List.all_eq_true.mp (Bool.and_eq_true_iff.mp scheme).2 char inside
  rw [facts.2] at allowed
  cases allowed

/-- What an address is read from: the text behind its first colon. -/
theorem readHttp_ok {read : Address} (reads : readHttp text = some read) :
    ∃ before address, text = before ++ ':' :: address ∧ ':' ∉ before ∧
      (∀ char ∈ before, cutsHost char = false) ∧ authorityOf (tidyEnd address) ≠ [] ∧
      read.path = pathOf (afterAuthority (tidyEnd address)) := by
  obtain ⟨parts, scheme, found⟩ := Option.bind_eq_some_iff.mp reads
  cases cut : splitOnce [':'] text with
  | none =>
      have absent : ':' ∉ tidy text := fun member =>
        splitOnce_char_eq_none_iff.mp cut
          ((List.dropWhile_suffix _).subset (mem_of_mem_tidyEnd member))
      rw [schemeOf, splitOnce_char_eq_none_iff.mpr absent] at scheme
      cases scheme
  | some halves =>
      obtain ⟨before, address⟩ := halves
      obtain ⟨rfl, colon⟩ := splitOnce_char_eq_some_iff.mp cut
      rw [schemeOf_tidy colon] at scheme
      split at scheme
      next written =>
        cases scheme
        split at found
        next http =>
          have authority := (Bool.and_eq_true_iff.mp http).2
          rw [Option.some.injEq] at found
          exact ⟨before, address, rfl, colon, cutsHost_of_isScheme written,
            by simpa using authority, by rw [← found]⟩
        · cases found
      · cases scheme

end Scheme

section Cases

variable {base : BasePath} {before address after early host : Text} {pieces : List Text}

theorem written_behind_colon (schemeChars : ∀ char ∈ before, cutsHost char = false)
    (whole : before ++ ':' :: address = host ++ joined '/' pieces) (uncut : IsUncut host) :
    ∃ host, IsUncut host ∧ address = host ++ joined '/' pieces := by
  have regrouped : (before ++ [':']) ++ address = host ++ joined '/' pieces := by
    simpa using whole
  rcases List.append_eq_append_iff.mp regrouped with ⟨rest, rfl, tail⟩ | ⟨rest, head, tail⟩
  · exact ⟨rest, fun char member => uncut char (List.mem_append_right _ member), tail⟩
  · cases rest with
    | nil => exact ⟨[], by simp [IsUncut], by simpa using tail.symm⟩
    | cons char rest =>
        have ends := joined_head pieces char (by rw [tail]; rfl)
        have slash : char = '/' := by
          cases pieces with
          | nil => cases tail
          | cons first pieces => exact (List.cons.inj tail).1.symm
        have member : char ∈ before ++ [':'] := by
          rw [head]
          simp
        rcases List.mem_append.mp member with inScheme | colon
        · exact absurd (schemeChars char inScheme) (by rw [slash]; decide)
        · exact absurd (slash.symm.trans (List.mem_singleton.mp colon)) (by decide)

theorem samePath_of_address (written : IsWritten pieces base) (uncut : IsUncut host)
    (whole : address = host ++ joined '/' pieces)
    (authority : authorityOf (tidyEnd address) ≠ []) :
    SamePath base (pathOf (afterAuthority (tidyEnd address))) ↔
      (!leadsWithSlash address) = true := by
  obtain ⟨piece, pieceUncut, tidied⟩ := tidyEnd_written uncut written
  rw [whole, tidied] at authority
  rw [leadsWithSlash, whole, tidied, samePath_directly pieceUncut written authority,
    Bool.not_eq_true', decide_eq_false_iff_not]

theorem first_colon (colon : ':' ∉ before) {other : Text}
    (whole : before ++ ':' :: address = other ++ "://".toList ++ after) :
    before = other ∧ address = "//".toList ++ after ∨
      ∃ early, other = before ++ ':' :: early ∧
        address = early ++ "://".toList ++ after := by
  rw [List.append_assoc] at whole
  rcases List.append_eq_append_iff.mp whole with ⟨rest, head, tail⟩ | ⟨rest, head, tail⟩
  · cases rest with
    | nil => exact .inl ⟨by simpa using head.symm, by simpa using tail⟩
    | cons char rest =>
        obtain ⟨rfl, inner⟩ := List.cons.inj tail
        exact .inr ⟨rest, head, by rw [List.append_assoc]; exact inner⟩
  · cases rest with
    | nil => exact .inl ⟨by simpa using head, by simpa using tail.symm⟩
    | cons char rest =>
        have same : ':' = char := (List.cons.inj tail).1
        refine absurd ?_ colon
        rw [head, same]
        simp

theorem tidyEnd_slashes (after : Text) :
    tidyEnd ("//".toList ++ after) = "//".toList ++ tidyEnd after := by
  have visible : isC0ControlOrSpace '/' = false := by decide
  have first := tidyEnd_append_cons visible [] ('/' :: after)
  have second := tidyEnd_append_cons visible [] after
  exact first.trans (congrArg (List.cons '/') second)

theorem samePath_of_later (written : IsWritten pieces base) (uncut : IsUncut host)
    (noBackslash : '\\' ∉ early) (whole : after = host ++ joined '/' pieces) :
    SamePath base
        (pathOf (afterAuthority (tidyEnd (early ++ "://".toList ++ after)))) ↔
      laterReadsAlike early after = true := by
  obtain ⟨piece, pieceUncut, tidied⟩ := tidyEnd_written uncut written
  have tidyLater : tidyEnd (early ++ "://".toList ++ after) =
      withoutBreaks early ++ "://".toList ++ (piece ++ joined '/' pieces) := by
    have address : early ++ "://".toList ++ after = early ++ ':' :: ("//".toList ++ after) := by
      simp
    rw [address, tidyEnd_append_cons (by decide), tidyEnd_slashes, whole, tidied]
    simp
  have clean : '\\' ∉ withoutBreaks early := fun member =>
    noBackslash (mem_of_mem_withoutBreaks member)
  rw [tidyLater, laterReadsAlike]
  split
  next query =>
    rw [pathOf_query query, decide_eq_true_eq, whole, dropWhile_piece uncut,
      written.withoutEndSlash]
    rfl
  next noQuery =>
    have plain : ∀ char ∈ afterSlashes (withoutBreaks early), endsPath char = false := by
      simpa using noQuery
    cases cut : (afterSlashes (withoutBreaks early)).any endsAuthority with
    | true =>
        refine iff_of_false (not_samePath_path plain ?_ clean pieceUncut written) (by simp)
        intro hostUncut
        obtain ⟨char, member, ends⟩ := List.any_eq_true.mp cut
        rw [hostUncut char member] at ends
        cases ends
    | false =>
        have hostUncut : IsUncut (afterSlashes (withoutBreaks early)) := by
          simpa [IsUncut] using cut
        rw [samePath_host hostUncut pieceUncut written, firstPiece, whole, tidied,
          takeWhile_piece pieceUncut]
        simp

/-- The two readers come to one path exactly where `readsAlike` says so. -/
theorem samePath_iff {text : Text} {read : Address} (trimmed : trim text = text)
    (reads : readHttp text = some read) (parsed : BasePath.ofUrl text = .ok base) :
    SamePath base read.path ↔ readsAlike text = true := by
  obtain ⟨before, address, rfl, colon, schemeChars, authority, path⟩ := readHttp_ok reads
  obtain ⟨noBackslash, host, pieces, whole, uncut, written⟩ := BasePath.ofUrl_ok parsed
  rw [trimmed] at noBackslash whole
  rw [path, readsAlike, splitOnce_char_append colon]
  dsimp only
  cases cut : splitOnce "://".toList (before ++ ':' :: address) with
  | none =>
      rw [afterScheme, cut] at whole
      obtain ⟨host, hostUncut, split⟩ := written_behind_colon schemeChars whole uncut
      exact samePath_of_address written hostUncut split authority
  | some parts =>
      obtain ⟨other, after⟩ := parts
      rw [afterScheme, cut] at whole
      dsimp only at whole ⊢
      rcases first_colon colon (splitOnce_eq_some_iff.mp cut).1 with
        ⟨rfl, rfl⟩ | ⟨early, rfl, rfl⟩
      · rw [if_pos rfl]
        rw [tidyEnd_slashes] at authority ⊢
        exact samePath_of_address written uncut whole authority
      · rw [if_neg (by simp)]
        have early' : (before ++ ':' :: early).drop (before.length + 1) = early := by
          rw [List.drop_append]
          simp
        rw [early']
        refine samePath_of_later written uncut (fun member => noBackslash ?_) whole
        simp [member]

end Cases

section Origin

variable {crate : UrlCrate} {value : Text} {base : PublicBase}

theorem PublicBase.parse_ok (parsed : PublicBase.parse crate value = .ok base) :
    ∃ url, crate.parse (trim value) = some url ∧ isHttp url.scheme = true ∧
      url.origin = base.origin ∧ BasePath.ofUrl (trim value) = .ok base.path := by
  unfold PublicBase.parse at parsed
  dsimp only at parsed
  split at parsed
  · cases parsed
  next url found =>
    split at parsed
    · cases parsed
    next http =>
      split at parsed
      · cases parsed
      · split at parsed
        · cases parsed
        · split at parsed
          · cases parsed
          next path read =>
            cases parsed
            exact ⟨url, found, by simpa using http, rfl, read⟩

/-- What a serialised origin, alone or with a path behind it, is read as. -/
theorem readHttp_origin {scheme authority tail : Text} (http : isHttp scheme = true)
    (notEmpty : authority ≠ [])
    (plain : ∀ char ∈ authority, isC0ControlOrSpace char = false ∧ endsAuthority char = false)
    (head : ∀ char, tail.head? = some char → char = '/') :
    readHttp (scheme ++ "://".toList ++ authority ++ tail) =
      some ⟨scheme, authority, pathOf (tidyEnd tail)⟩ := by
  have uncut : IsUncut authority := fun char member => (plain char member).2
  have colon : ':' ∉ scheme ∧ tidyStart scheme = scheme ∧ isScheme scheme = true ∧
      scheme.map toAsciiLowercase = scheme := by
    rw [isHttp, decide_eq_true_eq] at http
    rcases List.mem_pair.mp http with rfl | rfl <;> decide
  have whole : scheme ++ "://".toList ++ authority ++ tail =
      scheme ++ ':' :: ("//".toList ++ (authority ++ tail)) := by simp
  have kept : tidyEnd (authority ++ tail) = authority ++ tidyEnd tail ∧
      ∀ char, (tidyEnd tail).head? = some char → endsAuthority char = true := by
    cases tail with
    | nil =>
        rw [List.append_nil, tidyEnd_of_visible fun char member => (plain char member).1]
        exact ⟨(List.append_nil authority).symm, by simp [tidyEnd, trimEndMatches]⟩
    | cons first tail =>
        obtain rfl := head first rfl
        have clean : withoutBreaks authority = authority := by
          refine List.filter_eq_self.mpr fun char member => ?_
          simp [isTabOrNewline_of_visible (plain char member).1]
        have visible : isC0ControlOrSpace '/' = false := by decide
        have alone : tidyEnd ('/' :: tail) = '/' :: tidyEnd tail :=
          tidyEnd_append_cons visible [] tail
        rw [tidyEnd_append_cons visible, clean, alone]
        refine ⟨rfl, fun char head => ?_⟩
        cases head
        decide
  have slashes : afterSlashes ("//".toList ++ (authority ++ tidyEnd tail)) =
      authority ++ tidyEnd tail := by
    have noSlash := afterSlashes_of_head fun char head =>
      (Bool.or_eq_false_iff.mp (head_ne_slash uncut notEmpty (tidyEnd tail) char head)).1
    exact noSlash
  obtain ⟨host, path⟩ := authorityOf_append uncut kept.2 slashes
  rw [whole, readHttp, schemeOf_tidy colon.1, colon.2.1, colon.2.2.1, if_pos rfl,
    tidyEnd_slashes, kept.1, Option.bind_some, host, path, colon.2.2.2, http]
  simp [notEmpty]

theorem join_origin (parsed : PublicBase.parse crate value = .ok base) (route : Text) :
    ∃ joined, crate.parse (base.join ('/' :: route)) = some joined ∧
      joined.origin = base.origin := by
  obtain ⟨url, found, http, origin, -⟩ := PublicBase.parse_ok parsed
  obtain ⟨⟨again, foundAgain, -, same⟩, authority, serialised, notEmpty, plain⟩ :=
    crate.origin found http
  obtain ⟨segments, text, -⟩ := base.path.formed
  have slash : ∀ char, (base.path.asStr ++ '/' :: route).head? = some char → char = '/' := by
    intro char head
    rw [text] at head
    cases segments with
    | nil => exact (Option.some.inj head).symm
    | cons segment segments => exact (Option.some.inj head).symm
  have alone : readHttp url.origin = some ⟨url.scheme, authority, pathOf (tidyEnd [])⟩ := by
    have reads := @readHttp_origin url.scheme authority [] http notEmpty plain (by simp)
    rwa [List.append_nil, ← serialised] at reads
  have behind := readHttp_origin http notEmpty plain slash
  rw [← serialised, origin, ← List.append_assoc] at behind
  obtain ⟨joined, foundJoined, -, kept⟩ :=
    crate.authority foundAgain alone behind rfl rfl
  exact ⟨joined, foundJoined, by rw [kept, same, origin]⟩

/-- The base path an address is given is the path its url has exactly on the
addresses the two readers read alike; the base's origin is the url's, routes
under it stay on that origin, and the text of the base path reads back. -/
theorem base_path_is_url_path_iff (parsed : PublicBase.parse crate value = .ok base) :
    ∃ url, crate.parse (trim value) = some url ∧ url.origin = base.origin ∧
      (SamePath base.path url.path ↔ readsAlike (trim value) = true) ∧
      (∀ route, ∃ joined, crate.parse (base.join ('/' :: route)) = some joined ∧
        joined.origin = base.origin) ∧
      ∀ path kept, BasePath.parse path = .ok kept → BasePath.parse kept.asStr = .ok kept := by
  obtain ⟨url, found, http, origin, ofUrl⟩ := PublicBase.parse_ok parsed
  obtain ⟨address, reads, -, path⟩ := crate.reads found http
  have same := samePath_iff (isTrimmed_trim value).trim_eq reads ofUrl
  rw [path] at same
  exact ⟨url, found, origin, same, join_origin parsed, fun _ kept _ => kept.parse_asStr⟩

end Origin

section PlainHosts

/-- What a plain ascii host name is spelled with. -/
def isHostChar (char : Char) : Bool :=
  isAsciiLowercase char || isAsciiDigit char || char ∈ ['.', '-']

/-- The url of an address whose host name is kept as it is written. -/
def plainUrl (address : Address) : Url where
  scheme := address.scheme
  username := []
  password := none
  host := some address.authority
  path := address.path
  origin := address.scheme ++ "://".toList ++ address.authority

/-- A parser for the addresses of plain ascii host names. -/
def parsePlainHost (text : Text) : Option Url :=
  (readHttp text).bind fun address =>
    if address.authority.all isHostChar then some (plainUrl address) else none

theorem parsePlainHost_ok {text : Text} {url : Url} (parsed : parsePlainHost text = some url) :
    ∃ address, readHttp text = some address ∧ address.authority.all isHostChar = true ∧
      url = plainUrl address := by
  obtain ⟨address, reads, found⟩ := Option.bind_eq_some_iff.mp parsed
  split at found
  next plain => exact ⟨address, reads, plain, (Option.some.inj found).symm⟩
  · cases found

theorem readHttp_authority {text : Text} {address : Address}
    (reads : readHttp text = some address) : address.authority ≠ [] := by
  obtain ⟨parts, -, found⟩ := Option.bind_eq_some_iff.mp reads
  split at found
  next accepted =>
    cases found
    simpa using (Bool.and_eq_true_iff.mp accepted).2
  · cases found

theorem plain_of_isHostChar {char : Char} (host : isHostChar char = true) :
    isC0ControlOrSpace char = false ∧ endsAuthority char = false := by
  have allowed : isSegmentChar char = true := by
    simp only [isHostChar, Bool.or_eq_true, decide_eq_true_eq, List.mem_cons, List.not_mem_nil,
      or_false] at host
    simp only [isSegmentChar, Bool.or_eq_true, decide_eq_true_eq, List.mem_cons,
      List.not_mem_nil, or_false]
    tauto
  exact ⟨visible_of_isSegmentChar allowed, endsAuthority_of_isSegmentChar allowed⟩

/-- A url parser for plain ascii host names. -/
def plainHosts : UrlCrate where
  parse := parsePlainHost
  reads := by
    intro text url parsed _
    obtain ⟨address, reads, -, rfl⟩ := parsePlainHost_ok parsed
    exact ⟨address, reads, rfl, rfl⟩
  authority := by
    intro text url other address same parsed reads readsSame sameScheme sameAuthority
    obtain ⟨found, foundReads, plain, rfl⟩ := parsePlainHost_ok parsed
    obtain rfl : found = address := Option.some.inj (foundReads.symm.trans reads)
    rw [← sameAuthority] at plain
    refine ⟨plainUrl same, ?_, sameScheme, ?_⟩
    · rw [parsePlainHost, readsSame, Option.bind_some, if_pos plain]
    · simp [plainUrl, sameScheme, sameAuthority]
  origin := by
    intro text url parsed http
    obtain ⟨address, reads, plain, rfl⟩ := parsePlainHost_ok parsed
    have every := fun char member =>
      plain_of_isHostChar (List.all_eq_true.mp plain char member)
    have alone := @readHttp_origin address.scheme address.authority [] http
      (readHttp_authority reads) every (by simp)
    rw [List.append_nil] at alone
    refine ⟨⟨plainUrl ⟨address.scheme, address.authority, pathOf (tidyEnd [])⟩, ?_, rfl, rfl⟩,
      address.authority, rfl, readHttp_authority reads, every⟩
    rw [parsePlainHost, plainUrl, alone, Option.bind_some, if_pos plain]

/-- The base of `https://kb.example/team/`: its last slash is not kept. -/
def team : PublicBase := ⟨"https://kb.example".toList, "/team".toList, ["team".toList], rfl, rfl⟩

theorem base_path_is_url_path_iff_team :
    ∃ url, plainHosts.parse (trim " https://kb.example/team/ ".toList) = some url ∧
      url.origin = team.origin ∧
      (SamePath team.path url.path ↔
        readsAlike (trim " https://kb.example/team/ ".toList) = true) ∧
      (∀ route, ∃ joined, plainHosts.parse (team.join ('/' :: route)) = some joined ∧
        joined.origin = team.origin) ∧
      ∀ path kept, BasePath.parse path = .ok kept → BasePath.parse kept.asStr = .ok kept :=
  base_path_is_url_path_iff (by rfl)

/-- Behind one slash too few, the url parser still reads a host; the
hand-written reader takes that host for the first segment of the path. -/
theorem host_in_base_path :
    ∃ base url, PublicBase.parse plainHosts "https:/kb.example/team".toList = .ok base ∧
      plainHosts.parse (trim "https:/kb.example/team".toList) = some url ∧
      base.origin = "https://kb.example".toList ∧
      base.path.asStr = "/kb.example/team".toList ∧ url.path = "/team".toList ∧
      ¬ SamePath base.path url.path :=
  ⟨⟨"https://kb.example".toList, "/kb.example/team".toList,
      ["kb.example".toList, "team".toList], rfl, rfl⟩,
    plainUrl ⟨"https".toList, "kb.example".toList, "/team".toList⟩,
    rfl, rfl, rfl, rfl, rfl, by unfold SamePath; decide⟩

end PlainHosts

end Crystalline.Base
