import IndexAudit.Proofs.Text.Lowercase
import IndexAudit.Sql.Token
import Mathlib.Computability.Language

/-!
Keywords in any letter case, and phrases of statements, as languages over tokens.

Keywords are compared by their ASCII letters and names by all of their letters. The two agree on
words that are themselves plain lower-case ASCII. Grammars are put together from phrases by the sum,
the product and the star of languages.
-/

namespace IndexAudit

/-! Keywords. -/

/-- A word of ASCII characters none of which is a capital letter. -/
def IsPlainWord (word : String) : Prop :=
  ∀ c ∈ word.toList, c.toNat < 0x80 ∧ c.toLower = c

/-- Whether a word is plain can be read off its characters. -/
instance (word : String) : Decidable (IsPlainWord word) :=
  inferInstanceAs (Decidable (∀ c ∈ word.toList, c.toNat < 0x80 ∧ c.toLower = c))

/-- A character that is lowered to an ASCII one is an ASCII one. -/
theorem toNat_lt_of_toLower {c : Char} (ascii : c.toLower.toNat < 0x80) : c.toNat < 0x80 := by
  -- Only capitals move, and those and all in front of them are in ASCII.
  by_cases capital : c.val ≤ 90
  · have small : c.toNat ≤ 90 := UInt32.le_iff_toNat_le.mp capital
    omega
  · have same : c.toLower = c := dif_neg fun inRange => capital inRange.2
    rwa [same] at ascii

/-- An ASCII character is lowered as a letter of its own. -/
theorem lowerChar_ascii {c : Char} (ascii : c.toNat < 0x80) : lowerChar c = [c.toLower] := by
  -- The test of the definition is on the code point.
  have small : c.val < 0x80 := UInt32.lt_iff_toNat_lt.mpr ascii
  exact if_pos small

/-- An ASCII text is lowered character by character. -/
theorem lowerAfter_ascii {text : List Char} (ascii : ∀ c ∈ text, c.toNat < 0x80)
    (before : List Char) : lowerAfter before text = text.map Char.toLower := by
  induction text generalizing before with
  | nil => rfl
  | cons c rest ih =>
    obtain ⟨here, later⟩ := List.forall_mem_cons.mp ascii
    -- Only a sigma is lowered by what is around it, and that is not in ASCII.
    have noSigma : c ≠ 'Σ' := by
      rintro rfl
      exact absurd here (by decide)
    simp [lowerAfter, noSigma, lowerChar_ascii here, ih later]

/-- A text that is a plain word but for the case of its ASCII letters is lowered to that word. -/
theorem lower_eq_of_eqIgnoringAsciiCase {text word : String} (plain : IsPlainWord word)
    (same : eqIgnoringAsciiCase text word = true) : lower text = word := by
  -- The text has the letters of the word, so it is in ASCII like it.
  have letters : text.toList.map Char.toLower = word.toList := by
    rw [eq_of_beq same, List.map_congr_left fun c member => (plain c member).2, List.map_id']
  have ascii : ∀ c ∈ text.toList, c.toNat < 0x80 := by
    intro c member
    refine toNat_lt_of_toLower (plain _ ?_).1
    rw [← letters]
    exact List.mem_map_of_mem member
  rw [lower, lowerChars, lowerAfter_ascii ascii, letters, String.ofList_toList]

namespace SqlToken

variable {token : SqlToken} {word other : String} {words : List String}

/-- What tokens begin with is told by the first of them. -/
@[simp] theorem startsWith_cons (rest : List SqlToken) :
    startsWith word (token :: rest) = token.isKeyword word :=
  rfl

/-- A keyword is a bare word with that lower-case form. -/
theorem eq_word_of_isKeyword (plain : IsPlainWord word) (found : token.isKeyword word = true) :
    ∃ text, token = .word text ∧ lower text = word := by
  -- Only bare words can be keywords.
  cases token with
  | word text => exact ⟨text, rfl, lower_eq_of_eqIgnoringAsciiCase plain found⟩
  | _ => simp [isKeyword] at found

/-- A keyword is no other keyword. -/
theorem isKeyword_other (found : token.isKeyword word = true) :
    token.isKeyword other = eqIgnoringAsciiCase word other := by
  -- Its text is the keyword in some letter case, which is all that counts.
  cases token with
  | word text =>
    simp only [isKeyword, eqIgnoringAsciiCase] at found ⊢
    rw [eq_of_beq found]
  | _ => simp [isKeyword] at found

/-- A keyword is one of several keywords if one of these is spelled the same. -/
theorem isOneOf_keyword (found : token.isKeyword word = true) :
    token.isOneOf words = words.any (eqIgnoringAsciiCase word ·) := by
  -- The token is spelled like the keyword, so it is compared as that.
  simp [isOneOf, isKeyword_other found]

/-- One of several keywords is one of any others that contain them. -/
theorem isOneOf_of_subset {others : List String} (within : words ⊆ others)
    (found : token.isOneOf words = true) : token.isOneOf others = true := by
  -- The word that the token is stays in the longer list.
  obtain ⟨word, listed, same⟩ := List.any_eq_true.mp found
  exact List.any_eq_true.mpr ⟨word, within listed, same⟩

/-- An identifier whose lower-case form is none of several plain words is none of them. -/
theorem isOneOf_of_ident {text : String} (named : token.ident? = some text)
    (plain : ∀ word ∈ words, IsPlainWord word) (apart : lower text ∉ words) :
    token.isOneOf words = false := by
  -- Were it one of them, its lower-case form would be, too.
  rw [isOneOf, List.any_eq_false]
  intro word listed found
  obtain ⟨written, rfl, same⟩ := eq_word_of_isKeyword (plain word listed) found
  obtain rfl := Option.some.inj named
  exact apart (same ▸ listed)

/-- A token that names nothing is no keyword. -/
theorem isOneOf_of_nameless (nameless : token.ident? = none) : token.isOneOf words = false := by
  -- Keywords are words, and words are names.
  cases token with
  | word text => simp [ident?] at nameless
  | _ => simp [isOneOf, isKeyword]

end SqlToken

/-! Phrases. -/

namespace SqlToken

open scoped Computability

/-- A keyword, in any letter case. -/
def keyword (word : String) : Language SqlToken :=
  {tokens | ∃ token : SqlToken, token.isKeyword word = true ∧ tokens = [token]}

/-- An identifier, bare or quoted. -/
def identifier (text : String) : Language SqlToken :=
  {tokens | tokens = [.word text] ∨ tokens = [.quoted text]}

/-- A token that is always written alike, such as a punctuation mark. -/
def lone (token : SqlToken) : Language SqlToken :=
  {tokens | tokens = [token]}

/-- A phrase that may be left out. -/
def optional (phrase : Language SqlToken) : Language SqlToken :=
  phrase + 1

/-- The phrases of some items, with commas between them. -/
def listed {α : Type} (phrase : α → Language SqlToken) : List α → Language SqlToken
  | [] => 1
  | [item] => phrase item
  | item :: next :: items =>
    phrase item * lone (.punctuation ',') * listed phrase (next :: items)

/-- Either the phrase is there, or nothing. -/
theorem mem_optional {phrase : Language SqlToken} {tokens : List SqlToken} :
    tokens ∈ optional phrase ↔ tokens ∈ phrase ∨ tokens = [] :=
  Language.mem_add _ _ _

/-- An identifier is one token that names it. -/
theorem mem_identifier {text : String} {tokens : List SqlToken} :
    tokens ∈ identifier text ↔ ∃ token : SqlToken, token.ident? = some text ∧ tokens = [token] := by
  -- Bare or quoted, the token has this name; and what has a name is bare or quoted.
  constructor
  · rintro (rfl | rfl)
    · exact ⟨_, rfl, rfl⟩
    · exact ⟨_, rfl, rfl⟩
  · rintro ⟨token, named, rfl⟩
    cases token with
    | word written => exact .inl (by rw [Option.some.inj named])
    | quoted written => exact .inr (by rw [Option.some.inj named])
    | _ => simp [ident?] at named

/-- A keyword that may be left out is skipped where it stands. -/
theorem skip_optional {word : String} {tokens rest : List SqlToken}
    (optionally : tokens ∈ optional (keyword word)) (apart : startsWith word rest = false) :
    skip word (tokens ++ rest) = rest := by
  -- It is there and skipped, or it is not there and the rest begins with another token.
  rcases mem_optional.mp optionally with ⟨token, found, rfl⟩ | rfl
  · simp [skip, found]
  · simp [skip, apart]

/-- A list of two or more items is the first one, a comma, and the list of the others. -/
theorem mem_listed_cons {α : Type} {phrase : α → Language SqlToken} {item next : α}
    {items : List α} {tokens : List SqlToken}
    (written : tokens ∈ listed phrase (item :: next :: items)) :
    ∃ part ∈ phrase item, ∃ later ∈ listed phrase (next :: items),
      tokens = part ++ .punctuation ',' :: later := by
  -- The comma belongs to what stands in front of the others.
  obtain ⟨front, isFront, later, isLater, rfl⟩ := Language.mem_mul.mp written
  obtain ⟨part, isItem, comma, rfl, rfl⟩ := Language.mem_mul.mp isFront
  exact ⟨part, isItem, later, isLater, by simp⟩

/-- A list begins with its first item. -/
theorem listed_begins {α : Type} {phrase : α → Language SqlToken} {item : α} {items : List α}
    {tokens : List SqlToken} (written : tokens ∈ listed phrase (item :: items)) :
    ∃ part ∈ phrase item, ∃ rest, tokens = part ++ rest := by
  -- A single item is the whole list, and otherwise a comma follows the first one.
  cases items with
  | nil => exact ⟨tokens, written, [], by simp⟩
  | cons next items =>
    obtain ⟨part, isItem, later, -, rfl⟩ := mem_listed_cons written
    exact ⟨part, isItem, _, rfl⟩

/-- Each item of a list is written somewhere in it. -/
theorem exists_of_mem_listed {α : Type} {phrase : α → Language SqlToken} {items : List α}
    {tokens : List SqlToken} (written : tokens ∈ listed phrase items) :
    ∀ item ∈ items, ∃ part, part ∈ phrase item := by
  induction items generalizing tokens with
  | nil => simp
  | cons item rest ih =>
    -- A single item is the list, and of several the first stands in front of the others.
    cases rest with
    | nil => exact List.forall_mem_cons.mpr ⟨⟨tokens, written⟩, by simp⟩
    | cons next rest =>
      obtain ⟨part, isItem, later, isLater, rfl⟩ := mem_listed_cons written
      exact List.forall_mem_cons.mpr ⟨⟨part, isItem⟩, ih isLater⟩

/-- All tokens of a phrase, however it is written, are of a kind. -/
def Each (kind : SqlToken → Prop) (phrase : Language SqlToken) : Prop :=
  ∀ tokens ∈ phrase, ∀ token ∈ tokens, kind token

namespace Each

variable {kind : SqlToken → Prop} {first second : Language SqlToken}

/-- Tokens of a kind are of each wider kind. -/
theorem mono {wider : SqlToken → Prop} (each : Each kind first)
    (holds : ∀ token, kind token → wider token) : Each wider first :=
  fun tokens written token member => holds token (each tokens written token member)

/-- Tokens of two kinds are of both. -/
theorem and {other : SqlToken → Prop} (each : Each kind first) (also : Each other first) :
    Each (fun token => kind token ∧ other token) first :=
  fun tokens written token member =>
    ⟨each tokens written token member, also tokens written token member⟩

/-- No tokens are all of any kind. -/
theorem one : Each kind 1 := by
  -- There is no token to look at.
  rintro tokens rfl token member
  exact absurd member List.not_mem_nil

/-- A phrase behind another one. -/
theorem mul (left : Each kind first) (right : Each kind second) : Each kind (first * second) := by
  rintro tokens written token member
  obtain ⟨front, isFirst, back, isSecond, rfl⟩ := Language.mem_mul.mp written
  -- A token of both stands in one of them.
  rcases List.mem_append.mp member with member | member
  · exact left front isFirst token member
  · exact right back isSecond token member

/-- One of two phrases. -/
theorem add (left : Each kind first) (right : Each kind second) : Each kind (first + second) := by
  -- The tokens are those of one of the two.
  rintro tokens (written | written)
  · exact left tokens written
  · exact right tokens written

/-- A phrase written any number of times. -/
theorem star (phrase : Each kind first) : Each kind first∗ := by
  rintro tokens written token member
  -- A token of the repetition stands in one of its parts.
  obtain ⟨parts, rfl, all⟩ := Language.mem_kstar.mp written
  obtain ⟨part, inside, member⟩ := List.mem_flatten.mp member
  exact phrase part (all part inside) token member

/-- A phrase that may be left out. -/
theorem optional (phrase : Each kind first) : Each kind (optional first) :=
  phrase.add one

/-- A token that is always written alike. -/
theorem lone {token : SqlToken} (holds : kind token) : Each kind (lone token) := by
  -- The only token is that one.
  rintro tokens rfl other member
  exact List.mem_singleton.mp member ▸ holds

/-- A keyword in any letter case. -/
theorem keyword {word : String} (holds : ∀ token, isKeyword word token = true → kind token) :
    Each kind (keyword word) := by
  -- The only token is some spelling of the keyword.
  rintro tokens ⟨token, found, rfl⟩ other member
  exact List.mem_singleton.mp member ▸ holds token found

/-- Phrases with commas between them. -/
theorem listed {α : Type} {phrase : α → Language SqlToken} (comma : kind (.punctuation ',')) :
    ∀ {items : List α}, (∀ item ∈ items, Each kind (phrase item)) →
      Each kind (listed phrase items)
  -- [], _ => one|Between two items stands a comma, and none around a single one or in an empty
  -- list.
  | [], _ => one
  | [item], all => all item (List.mem_singleton_self item)
  | item :: next :: items, all =>
    ((all item (by simp)).mul (lone comma)).mul
      (listed comma fun other member => all other (List.mem_cons_of_mem item member))

end Each

end SqlToken

end IndexAudit
