import RelytIngest.Foundations.TextScan

/-!
# Masking the password of a DSN

`maskDsn` hides the password of a connection string in logs. It looks for the password by rules of
its own, not by the grammar that the connection string is read with: `password_hidden_iff` says in
which DSNs no password, whatever its characters, can be told from another one, and how a password
has to be written in the others to be hidden.
-/

set_option autoImplicit false
set_option relaxedAutoImplicit false

namespace RelytIngest

open Foundations

/-! ### The mask -/

def SCHEME_END : Text := "://".toList

def PASSWORD_KEY : Text := "password=".toList

/-- The part of `mask_dsn` behind the scheme of a URL. -/
def maskUserInfo (rest : Text) : Text :=
  match splitOnce '@' rest with
  | some (info, hosts) =>
    match splitOnce ':' info with
    | some (user, _) => user ++ (":***".toList ++ '@' :: hosts)
    | none => rest
  | none => rest

/-- Behind the closing quote, skipping the quotes that are escaped. -/
def afterQuoted : Bool → Text → Text
  | _, [] => []
  | escaped, c :: rest =>
    if c = '\'' ∧ escaped = false then rest else afterQuoted (c == '\\' && !escaped) rest

/-- Behind the value that `mask_dsn` takes for the password. -/
def afterPassword : Text → Text
  | '\'' :: quoted => afterQuoted false quoted
  | value => value.dropWhile fun c ↦ !isWhitespace c

/-- One round of the loop of `mask_dsn`. -/
def nextPassword (text : Text) : Option (Text × Text) :=
  (findText PASSWORD_KEY (asciiLowercase text)).map fun i ↦
    let keyEnd := i + PASSWORD_KEY.length
    (text.take keyEnd ++ "***".toList, afterPassword (text.drop keyEnd))

/-- `mask_dsn`. -/
def maskDsn (dsn : Text) : Text :=
  match findText SCHEME_END dsn with
  | some schemeEnd => dsn.take (schemeEnd + 3) ++ maskUserInfo (dsn.drop (schemeEnd + 3))
  | none => scan nextPassword dsn

/-! ### The grammar of a DSN -/

/-- Text in which a backslash escapes a character and nothing else is a character that stops. -/
inductive Escaped (stops : Char → Bool) : Text → Prop
  | nil : Escaped stops []
  | escape (c : Char) {rest : Text} (hrest : Escaped stops rest) :
    Escaped stops ('\\' :: c :: rest)
  | plain {c : Char} {rest : Text} (hc : c ≠ '\\') (hstops : stops c = false)
    (hrest : Escaped stops rest) : Escaped stops (c :: rest)

/-- A value in single quotes. -/
def IsQuoted (value : Text) : Prop :=
  ∃ inner, value = '\'' :: (inner ++ ['\'']) ∧ Escaped (· == '\'') inner

/-- A value without quotes, which whitespace ends. -/
def IsBare (value : Text) : Prop :=
  value ≠ [] ∧ value.head? ≠ some '\'' ∧ Escaped isWhitespace value

def URL_SCHEMES : List Text := ["postgres://".toList, "postgresql://".toList]

/-- A place of a DSN where the password is written, with the texts around it. -/
inductive PasswordSite
  /-- A parameter of the key=value form, with the text before and after the equals sign. -/
  | keyValue (front before after back : Text)
  /-- Behind the user of a URL. -/
  | userInfo (scheme user hosts : Text)
  /-- A query parameter of a URL; the front is all up to its equals sign. -/
  | query (scheme front back : Text)

/-- The DSN with a password written at the place. -/
def PasswordSite.dsn : PasswordSite → Text → Text
  | .keyValue front before after back, value =>
    front ++ ("password".toList ++ (before ++ '=' :: (after ++ (value ++ back))))
  | .userInfo scheme user hosts, value => scheme ++ (user ++ ':' :: (value ++ '@' :: hosts))
  | .query scheme front back, value => scheme ++ (front ++ '=' :: (value ++ back))

/-- The grammar reads the text as the password at this place: in the key=value form it is quoted or
ends at whitespace, in a URL the user info ends at the first `@` and a parameter at the next `&`. -/
def PasswordSite.Accepts : PasswordSite → Text → Prop
  | .keyValue front before after back, value =>
    (∀ c ∈ front.getLast?, c = '\'' ∨ isWhitespace c) ∧ (∀ c ∈ before ++ after, isWhitespace c) ∧
      (IsQuoted value ∨ IsBare value ∧ ∀ c ∈ back.head?, isWhitespace c)
  | .userInfo scheme user _, value =>
    scheme ∈ URL_SCHEMES ∧ '@' ∉ user ∧ ':' ∉ user ∧ '@' ∉ value
  | .query scheme front back, value =>
    scheme ∈ URL_SCHEMES ∧ '&' ∉ value ∧ (∀ c ∈ back.head?, c = '&') ∧
      ('@' ∈ front ∨ '@' ∉ value ++ back)

def PasswordSite.InUserInfo : PasswordSite → Prop
  | .userInfo .. => True
  | _ => False

/-! ### URLs -/

/-- What is shown of the user info. -/
def maskInfo (info : Text) : Text :=
  match splitOnce ':' info with
  | some (user, _) => user ++ ":***".toList
  | none => info

theorem maskUserInfo_at {info : Text} (hinfo : '@' ∉ info) (hosts : Text) :
    maskUserInfo (info ++ '@' :: hosts) = maskInfo info ++ '@' :: hosts := by
  unfold maskUserInfo maskInfo
  simp only [splitOnce_append hinfo]
  cases splitOnce ':' info with
  | none => rfl
  | some cut => simp only [List.append_assoc]

theorem maskUserInfo_of_no_at {rest : Text} (hrest : '@' ∉ rest) : maskUserInfo rest = rest := by
  unfold maskUserInfo
  simp only [splitOnce_eq_none_iff.mpr hrest]

theorem maskInfo_password {user : Text} (huser : ':' ∉ user) (password : Text) :
    maskInfo (user ++ ':' :: password) = user ++ ":***".toList := by
  unfold maskInfo
  simp only [splitOnce_append huser]

/-- What is in front of the first colon is shown. -/
theorem maskInfo_front {front : Text} {c : Char} (hfront : ':' ∉ front) (hc : c ≠ ':')
    (back : Text) : ∃ tail, maskInfo (front ++ c :: back) = front ++ c :: tail := by
  unfold maskInfo
  cases h : splitOnce ':' back with
  | none =>
    have hwhole : splitOnce ':' (front ++ c :: back) = none := by
      rw [splitOnce_eq_none_iff, List.mem_append, List.mem_cons, not_or, not_or]
      exact ⟨hfront, Ne.symm hc, splitOnce_eq_none_iff.mp h⟩
    exact ⟨back, by simp only [hwhole]⟩
  | some cut =>
    obtain ⟨name, rest⟩ := cut
    obtain ⟨rfl, hname⟩ := splitOnce_eq_some_iff.mp h
    have hwhole : ':' ∉ front ++ c :: name := by
      rw [List.mem_append, List.mem_cons, not_or, not_or]
      exact ⟨hfront, Ne.symm hc, hname⟩
    have htext : front ++ c :: (name ++ ':' :: rest) = (front ++ c :: name) ++ ':' :: rest := by
      rw [List.append_assoc, List.cons_append]
    refine ⟨name ++ ":***".toList, ?_⟩
    simp only [htext, splitOnce_append hwhole]
    rw [List.append_assoc, List.cons_append]

/-- A character is shown when it is behind the user info, or not behind a colon in it, or when there
is no user info. -/
theorem maskUserInfo_ne {front back : Text} {c d : Char} (hne : c ≠ d) (hc : c ≠ '@' ∧ c ≠ ':')
    (hd : d ≠ '@' ∧ d ≠ ':') (hfront : '@' ∈ front ∨ ':' ∉ front ∨ '@' ∉ back) :
    maskUserInfo (front ++ c :: back) ≠ maskUserInfo (front ++ d :: back) := by
  have hshown (shown tail tail' : Text) : shown ++ c :: tail ≠ shown ++ d :: tail' := by
    rw [ne_eq, List.append_right_inj, List.cons.injEq, not_and]
    exact fun h ↦ absurd h hne
  by_cases hat : '@' ∈ front
  · obtain ⟨info, more, rfl, hinfo⟩ := List.eq_append_cons_of_mem hat
    rw [List.append_assoc, List.append_assoc, List.cons_append, List.cons_append,
      maskUserInfo_at hinfo, maskUserInfo_at hinfo]
    exact fun h ↦ hshown more back back (List.cons.inj (List.append_cancel_left h)).2
  have hplain {x : Char} (hx : x ≠ '@') {info : Text} (hinfo : '@' ∉ info) :
      '@' ∉ front ++ x :: info := by
    rw [List.mem_append, List.mem_cons, not_or, not_or]
    exact ⟨hat, Ne.symm hx, hinfo⟩
  by_cases hback : '@' ∈ back
  · obtain ⟨info, more, rfl, hinfo⟩ := List.eq_append_cons_of_mem hback
    have hcolon : ':' ∉ front :=
      (hfront.resolve_left hat).resolve_right fun h ↦ h hback
    have htext (x : Char) :
        front ++ x :: (info ++ '@' :: more) = (front ++ x :: info) ++ '@' :: more := by
      rw [List.append_assoc, List.cons_append]
    obtain ⟨tail, htail⟩ := maskInfo_front hcolon hc.2 info
    obtain ⟨tail', htail'⟩ := maskInfo_front hcolon hd.2 info
    rw [htext, htext, maskUserInfo_at (hplain hc.1 hinfo), maskUserInfo_at (hplain hd.1 hinfo),
      htail, htail', List.append_assoc, List.append_assoc, List.cons_append, List.cons_append]
    exact hshown front _ _
  · rw [maskUserInfo_of_no_at (hplain hc.1 hback), maskUserInfo_of_no_at (hplain hd.1 hback)]
    exact hshown front back back

/-- Behind the scheme of a URL only the user info is masked. -/
theorem maskDsn_url {scheme : Text} (hscheme : scheme ∈ URL_SCHEMES) (rest : Text) :
    maskDsn (scheme ++ rest) = scheme ++ maskUserInfo rest := by
  have hfind : ∀ scheme ∈ URL_SCHEMES, findText SCHEME_END scheme = some (scheme.length - 3) ∧
      scheme.length - 3 + 3 = scheme.length := by decide +kernel
  obtain ⟨hend, hlength⟩ := hfind scheme hscheme
  unfold maskDsn
  simp only [findText_append (by decide) hend rest, hlength, List.take_left, List.drop_left]

/-- In a DSN with the end of a scheme in front of it, a character is shown unless it is in the user
info behind a colon. -/
theorem maskDsn_ne {front back : Text} {i : Nat} {c d : Char}
    (hend : findText SCHEME_END front = some i) (hne : c ≠ d) (hc : c ≠ '@' ∧ c ≠ ':')
    (hd : d ≠ '@' ∧ d ≠ ':')
    (hfront : '@' ∈ front.drop (i + 3) ∨ ':' ∉ front.drop (i + 3) ∨ '@' ∉ back) :
    maskDsn (front ++ c :: back) ≠ maskDsn (front ++ d :: back) := by
  have hlength := (findText_eq_some_iff.mp hend).1.length_le
  have hthree : SCHEME_END.length = 3 := rfl
  rw [List.length_drop, hthree] at hlength
  have hplace : i + 3 ≤ front.length := by omega
  unfold maskDsn
  simp only [findText_append (by decide) hend, List.take_append_of_le_length hplace,
    List.drop_append_of_le_length hplace, ne_eq, List.append_right_inj]
  exact maskUserInfo_ne hne hc hd hfront

/-! ### The key=value form -/

theorem Escaped.of_plain {stops : Char → Bool} {text : Text}
    (hplain : ∀ c ∈ text, c ≠ '\\' ∧ stops c = false) : Escaped stops text := by
  induction text with
  | nil => exact .nil
  | cons c rest ih =>
    obtain ⟨hc, hstops⟩ := hplain c List.mem_cons_self
    exact .plain hc hstops (ih fun d hd ↦ hplain d (List.mem_cons_of_mem _ hd))

/-- A quoted value that spells the end of a scheme is taken for a URL, and no user info is looked
for in front of what follows. -/
theorem schemeEnd_in_value (front : Text) :
    ∃ i, findText SCHEME_END (front ++ ['\'', '@', ':', '/', '/']) = some i ∧
      ('@' ∈ (front ++ ['\'', '@', ':', '/', '/']).drop (i + 3) ∨
        ':' ∉ (front ++ ['\'', '@', ':', '/', '/']).drop (i + 3)) := by
  generalize htext : front ++ ['\'', '@', ':', '/', '/'] = text
  have hquote : text[front.length]? = some '\'' := by
    rw [← htext, List.getElem?_append_right le_rfl, Nat.sub_self]
    rfl
  have hat : text[front.length + 1]? = some '@' := by
    rw [← htext, List.getElem?_append_right (Nat.le_add_right _ 1), Nat.add_sub_cancel_left]
    rfl
  have hlast : SCHEME_END <+: text.drop (front.length + 2) := by
    rw [← htext, List.drop_append, List.drop_eq_nil_of_le (Nat.le_add_right _ _),
      Nat.add_sub_cancel_left]
    exact List.prefix_rfl
  cases h : findText SCHEME_END text with
  | none => exact absurd hlast (findText_eq_none_iff.mp h _)
  | some i =>
    refine ⟨i, rfl, ?_⟩
    obtain ⟨hhere, hearliest⟩ := findText_eq_some_iff.mp h
    have hle : i ≤ front.length + 2 := Nat.le_of_not_lt fun hlt ↦ hearliest _ hlt hlast
    obtain ⟨rest, hrest⟩ := hhere
    have hchar (k : Nat) : text[i + k]? = (SCHEME_END ++ rest)[k]? := by
      rw [hrest, List.getElem?_drop]
    -- neither the quote nor the `@` is part of the first end of a scheme
    have hzero : i ≠ front.length := by
      rintro rfl
      exact absurd ((hquote.symm.trans (hchar 0)).trans (rfl : _ = some ':')) (by decide)
    have hone : i + 1 ≠ front.length := fun heq ↦ by
      have hslash : text[i + 1]? = some '/' := hchar 1
      rw [heq, hquote] at hslash
      exact absurd hslash (by decide)
    have htwo : i ≠ front.length + 1 := by
      rintro rfl
      exact absurd ((hat.symm.trans (hchar 0)).trans (rfl : _ = some ':')) (by decide)
    by_cases hvalue : i = front.length + 2
    · right
      rw [hvalue, List.drop_eq_nil_of_le]
      · exact List.not_mem_nil
      · rw [← htext, List.length_append]
        exact le_rfl
    · left
      refine List.mem_of_getElem? (i := front.length + 1 - (i + 3)) ?_
      rw [List.getElem?_drop, ← hat]
      congr 1
      omega

/-- Behind the closing quote of a quoted value. -/
theorem afterQuoted_of_escaped {inner : Text} (hinner : Escaped (· == '\'') inner) (back : Text) :
    afterQuoted false (inner ++ '\'' :: back) = back := by
  induction hinner with
  | nil => rfl
  | @escape c rest _ ih =>
    rw [List.cons_append, List.cons_append, afterQuoted, if_neg (by decide)]
    have hflag : ('\\' == '\\' && !false) = true := rfl
    rw [hflag, afterQuoted, if_neg (by simp), Bool.not_true, Bool.and_false]
    exact ih
  | @plain c rest hc hstops _ ih =>
    have hquote : c ≠ '\'' := beq_eq_false_iff_ne.mp hstops
    have hflag : (c == '\\' && !false) = false := by
      rw [beq_eq_false_iff_ne.mpr hc, Bool.false_and]
    rw [List.cons_append, afterQuoted, if_neg fun h ↦ hquote h.1, hflag]
    exact ih

theorem shortens_nextPassword : Shortens nextPassword := by
  intro text out rest h
  obtain ⟨i, hfind, hround⟩ := Option.map_eq_some_iff.mp h
  obtain ⟨-, rfl⟩ := Prod.mk.inj hround
  have hlength := (findText_eq_some_iff.mp hfind).1.length_le
  have hkey : PASSWORD_KEY.length = 9 := rfl
  rw [List.length_drop, length_asciiLowercase, hkey] at hlength
  have hquoted : ∀ (escaped : Bool) (value : Text),
      (afterQuoted escaped value).length ≤ value.length := by
    intro escaped value
    induction value generalizing escaped with
    | nil => exact le_rfl
    | cons c value ih =>
      rw [afterQuoted]
      split
      · exact Nat.le_succ _
      · exact Nat.le_succ_of_le (ih _)
  have hafter (value : Text) : (afterPassword value).length ≤ value.length := by
    unfold afterPassword
    split
    · exact Nat.le_succ_of_le (hquoted _ _)
    · exact (List.dropWhile_sublist _).length_le
  have hle := hafter (text.drop (i + PASSWORD_KEY.length))
  rw [List.length_drop] at hle
  omega

/-- A value whose end the mask finds as the grammar does: it is quoted, or has no whitespace, not
even an escaped one. -/
def WrittenPlainly (value : Text) : Prop :=
  IsQuoted value ∨ value.head? ≠ some '\'' ∧ ∀ c ∈ value, isWhitespace c = false

theorem afterPassword_of_plain {value back : Text} (hne : value ≠ [])
    (hback : IsQuoted value ∨ ∀ c ∈ back.head?, isWhitespace c) (hvalue : WrittenPlainly value) :
    afterPassword (value ++ back) = back := by
  rcases hvalue with ⟨inner, rfl, hinner⟩ | ⟨hhead, hplain⟩
  · rw [List.cons_append, List.append_assoc, List.singleton_append]
    exact afterQuoted_of_escaped hinner back
  have hspace : ∀ c ∈ back.head?, isWhitespace c := by
    refine hback.resolve_left ?_
    rintro ⟨inner, rfl, -⟩
    exact hhead rfl
  cases value with
  | nil => exact absurd rfl hne
  | cons c rest =>
    have hquote : c ≠ '\'' := fun h ↦ hhead (h ▸ rfl)
    have hshape : afterPassword (c :: rest ++ back) =
        (c :: rest ++ back).dropWhile fun c ↦ !isWhitespace c := by
      rw [List.cons_append]
      unfold afterPassword
      split
      · next heq => exact absurd (List.cons.inj heq).1 hquote
      · rfl
    rw [hshape, List.dropWhile_append_of_pos fun d hd ↦ by rw [hplain d hd]; rfl]
    cases back with
    | nil => rfl
    | cons d back =>
      refine List.dropWhile_cons_of_neg ?_
      rw [hspace d rfl]
      exact Bool.false_ne_true

/-- The site and the value are such that the mask finds the password: in the key=value form the key
is the first text that looks like it, with no blanks around the equals sign, the value is written
plainly, and nothing looks like a URL. -/
def PasswordSite.FoundByMask : PasswordSite → Text → Prop
  | .keyValue front before after back, value =>
    before = [] ∧ after = [] ∧
      findText PASSWORD_KEY (asciiLowercase (front ++ PASSWORD_KEY)) = some front.length ∧
      WrittenPlainly value ∧
      findText SCHEME_END (PasswordSite.dsn (.keyValue front before after back) value) = none
  | .userInfo .., _ => True
  | .query .., _ => False

/-- Where the mask finds it, the password is left out. -/
theorem maskDsn_keyValue {front back value : Text}
    (haccepts : PasswordSite.Accepts (.keyValue front [] [] back) value)
    (hfound : PasswordSite.FoundByMask (.keyValue front [] [] back) value) :
    maskDsn (PasswordSite.dsn (.keyValue front [] [] back) value) =
      front ++ (PASSWORD_KEY ++ ("***".toList ++ scan nextPassword back)) := by
  obtain ⟨-, -, hkey, hplain, hurl⟩ := hfound
  obtain ⟨-, -, hgrammar⟩ := haccepts
  have hne : value ≠ [] := by
    rcases hgrammar with ⟨inner, rfl, -⟩ | ⟨hbare, -⟩
    · exact List.cons_ne_nil _ _
    · exact hbare.1
  have hafter := afterPassword_of_plain hne (hgrammar.imp id And.right) hplain
  have hkeyText : PASSWORD_KEY = "password".toList ++ ['='] := by decide +kernel
  have hdsn : PasswordSite.dsn (.keyValue front [] [] back) value =
      (front ++ PASSWORD_KEY) ++ (value ++ back) := by
    unfold PasswordSite.dsn
    rw [hkeyText]
    generalize "password".toList = key
    simp only [List.nil_append, List.append_assoc, List.cons_append]
  have hfind : findText PASSWORD_KEY (asciiLowercase ((front ++ PASSWORD_KEY) ++ (value ++ back))) =
      some front.length := by
    rw [asciiLowercase_append]
    exact findText_append (by decide) hkey _
  have hround : nextPassword ((front ++ PASSWORD_KEY) ++ (value ++ back)) =
      some ((front ++ PASSWORD_KEY) ++ "***".toList, back) := by
    unfold nextPassword
    rw [hfind, Option.map_some]
    simp only [← List.length_append, List.take_left, List.drop_left, hafter]
  have hscan : maskDsn ((front ++ PASSWORD_KEY) ++ (value ++ back)) =
      scan nextPassword ((front ++ PASSWORD_KEY) ++ (value ++ back)) := by
    unfold maskDsn
    rw [← hdsn, hurl]
  rw [hdsn, hscan, scan_of_some shortens_nextPassword hround, List.append_assoc, List.append_assoc]

/-! ### Which passwords are hidden -/

/-- A text is checked by its own characters, not by all there are. -/
local instance (priority := 2000) decidableForallMemText (property : Char → Prop)
    [DecidablePred property] (text : Text) : Decidable (∀ c ∈ text, property c) :=
  List.decidableBAll property text

local instance (priority := 2000) decidableForallMemEdge (property : Char → Prop)
    [DecidablePred property] (edge : Option Char) : Decidable (∀ c ∈ edge, property c) :=
  Option.decidableForallMem edge

/-- Two passwords that differ in one character, both accepted. -/
def PasswordSite.probe (site : PasswordSite) (c : Char) : Text :=
  match site with
  | .keyValue .. => '\'' :: '@' :: ':' :: '/' :: '/' :: c :: ['\'']
  | _ => [c]

theorem accepts_probe {site : PasswordSite} (hsite : ∃ value, site.Accepts value)
    (hother : ¬site.InUserInfo) {c : Char} (hc : c = 'a' ∨ c = 'b') :
    site.Accepts (site.probe c) := by
  obtain ⟨value, haccepts⟩ := hsite
  cases site with
  | keyValue front before after back =>
    refine ⟨haccepts.1, haccepts.2.1, Or.inl ⟨['@', ':', '/', '/', c], rfl, .of_plain ?_⟩⟩
    rcases hc with rfl | rfl <;> decide
  | userInfo scheme user hosts => exact absurd trivial hother
  | query scheme front back =>
    obtain ⟨hscheme, -, hback, hat⟩ := haccepts
    refine ⟨hscheme, ?_, hback, hat.imp id fun h ↦ ?_⟩
    · show '&' ∉ [c]
      rcases hc with rfl | rfl <;> decide
    · show '@' ∉ [c] ++ back
      rw [List.singleton_append, List.mem_cons, not_or]
      refine ⟨?_, fun hmem ↦ h (List.mem_append_right _ hmem)⟩
      rcases hc with rfl | rfl <;> decide

/-- Outside of the user info the two probes are told apart. -/
theorem probe_shown {site : PasswordSite} (hsite : ∃ value, site.Accepts value)
    (hother : ¬site.InUserInfo) :
    maskDsn (site.dsn (site.probe 'a')) ≠ maskDsn (site.dsn (site.probe 'b')) := by
  obtain ⟨value, haccepts⟩ := hsite
  cases site with
  | keyValue front before after back =>
    have hdsn (c : Char) : PasswordSite.dsn (.keyValue front before after back)
        (PasswordSite.probe (.keyValue front before after back) c) =
          ((front ++ ("password".toList ++ (before ++ '=' :: after))) ++
            ['\'', '@', ':', '/', '/']) ++ c :: ('\'' :: back) := by
      unfold PasswordSite.dsn PasswordSite.probe
      generalize "password".toList = key
      simp only [List.append_assoc, List.cons_append, List.nil_append]
    obtain ⟨i, hend, hfront⟩ :=
      schemeEnd_in_value (front ++ ("password".toList ++ (before ++ '=' :: after)))
    rw [hdsn, hdsn]
    exact maskDsn_ne hend (by decide) (by decide) (by decide) (hfront.imp_right Or.inl)
  | userInfo scheme user hosts => exact absurd trivial hother
  | query scheme front back =>
    obtain ⟨hscheme, -, -, hat⟩ := haccepts
    have hdsn (c : Char) : PasswordSite.dsn (.query scheme front back)
        (PasswordSite.probe (.query scheme front back) c) =
          scheme ++ ((front ++ ['=']) ++ c :: back) := by
      unfold PasswordSite.dsn PasswordSite.probe
      simp only [List.append_assoc, List.cons_append, List.nil_append]
    rw [hdsn, hdsn, maskDsn_url hscheme, maskDsn_url hscheme, ne_eq, List.append_right_inj]
    refine maskUserInfo_ne (by decide) (by decide) (by decide) ?_
    rcases hat with hat | hat
    · exact Or.inl (List.mem_append_left _ hat)
    · exact Or.inr (Or.inr fun hmem ↦ hat (List.mem_append_right _ hmem))

/-- No two passwords can be told apart in the mask exactly in a URL that has the password in its
user info. In any DSN, those that the mask finds are hidden. -/
theorem password_hidden_iff (site : PasswordSite) (hsite : ∃ value, site.Accepts value) :
    ((∀ one other, site.Accepts one → site.Accepts other →
        maskDsn (site.dsn one) = maskDsn (site.dsn other)) ↔ site.InUserInfo) ∧
      ∀ one other, site.Accepts one → site.Accepts other → site.FoundByMask one →
        site.FoundByMask other → maskDsn (site.dsn one) = maskDsn (site.dsn other) := by
  have huser : site.InUserInfo → ∀ one other, site.Accepts one → site.Accepts other →
      maskDsn (site.dsn one) = maskDsn (site.dsn other) := by
    intro hinfo one other hone hother
    cases site with
    | keyValue front before after back => exact hinfo.elim
    | query scheme front back => exact hinfo.elim
    | userInfo scheme user hosts =>
      obtain ⟨hscheme, hat, hcolon, hone⟩ := hone
      obtain ⟨-, -, -, hother⟩ := hother
      have hmask {value : Text} (hvalue : '@' ∉ value) :
          maskDsn (PasswordSite.dsn (.userInfo scheme user hosts) value) =
            scheme ++ ((user ++ ":***".toList) ++ '@' :: hosts) := by
        have hinfo : '@' ∉ user ++ ':' :: value := by
          rw [List.mem_append, List.mem_cons, not_or, not_or]
          exact ⟨hat, by decide, hvalue⟩
        have htext : user ++ ':' :: (value ++ '@' :: hosts) =
            (user ++ ':' :: value) ++ '@' :: hosts := by
          rw [List.append_assoc, List.cons_append]
        unfold PasswordSite.dsn
        rw [maskDsn_url hscheme, htext, maskUserInfo_at hinfo, maskInfo_password hcolon]
      rw [hmask hone, hmask hother]
  refine ⟨⟨fun hall ↦ ?_, huser⟩, fun one other hone hother hfound hfound' ↦ ?_⟩
  · by_contra hinfo
    exact probe_shown hsite hinfo (hall _ _ (accepts_probe hsite hinfo (Or.inl rfl))
      (accepts_probe hsite hinfo (Or.inr rfl)))
  · cases site with
    | keyValue front before after back =>
      obtain ⟨rfl, rfl, -⟩ := id hfound
      rw [maskDsn_keyValue hone hfound, maskDsn_keyValue hother hfound']
    | userInfo scheme user hosts => exact huser trivial one other hone hother
    | query scheme front back => exact hfound.elim

/-- A bare value and a quoted one with a blank in it, each right behind the equals sign. -/
theorem password_hidden_iff_tight :
    maskDsn (PasswordSite.dsn (.keyValue "host=h ".toList [] [] " dbname=d".toList)
        "s3cret".toList) =
      maskDsn (PasswordSite.dsn (.keyValue "host=h ".toList [] [] " dbname=d".toList)
        "'a b'".toList) := by
  have hbare : PasswordSite.Accepts (.keyValue "host=h ".toList [] [] " dbname=d".toList)
      "s3cret".toList :=
    ⟨by decide, by decide, Or.inr ⟨⟨by decide, by decide, .of_plain (by decide)⟩, by decide⟩⟩
  have hquoted : PasswordSite.Accepts (.keyValue "host=h ".toList [] [] " dbname=d".toList)
      "'a b'".toList :=
    ⟨by decide, by decide, Or.inl ⟨"a b".toList, by decide, .of_plain (by decide)⟩⟩
  exact (password_hidden_iff (.keyValue "host=h ".toList [] [] " dbname=d".toList)
    ⟨"s3cret".toList, hbare⟩).2 _ _ hbare hquoted
      ⟨rfl, rfl, by decide +kernel, Or.inr ⟨by decide, by decide⟩, by decide +kernel⟩
      ⟨rfl, rfl, by decide +kernel, Or.inl ⟨"a b".toList, by decide, .of_plain (by decide)⟩,
        by decide +kernel⟩

/-- With blanks around the equals sign the key is not recognised, and the password is shown. -/
theorem password_shown_behind_blanks :
    PasswordSite.Accepts (.keyValue "host=h ".toList [' '] [' '] []) "s3cret".toList ∧
      PasswordSite.Accepts (.keyValue "host=h ".toList [' '] [' '] []) "hunter2".toList ∧
      maskDsn (PasswordSite.dsn (.keyValue "host=h ".toList [' '] [' '] []) "s3cret".toList) =
        "host=h password = s3cret".toList ∧
      maskDsn (PasswordSite.dsn (.keyValue "host=h ".toList [' '] [' '] []) "hunter2".toList) =
        "host=h password = hunter2".toList :=
  ⟨⟨by decide, by decide, Or.inr ⟨⟨by decide, by decide, .of_plain (by decide)⟩, by decide⟩⟩,
    ⟨by decide, by decide, Or.inr ⟨⟨by decide, by decide, .of_plain (by decide)⟩, by decide⟩⟩,
    by decide +kernel, by decide +kernel⟩

end RelytIngest
