import Mathlib.Data.Finset.Card
import Disasm68k.Token
import Disasm68k.Proofs.Decimal

/-!
# Tokens told by their kinds and texts

Tokens are compared by their constructors and the values that they hold. A printer sees a kind and
a text only, and a table of tokens looks for a constructor and a text. Neither takes two tokens for
one: every kind belongs to one constructor, and what is written for a value can be read back. This
holds of the tokens that can be written. A number of too many digits has no text, so a token that
holds one equals itself and has neither a pair nor a key to show it by.

- `Token.IsTooLong`, `Token.text?_eq_none_iff`: the tokens without a text;
- `Token.ofTyped?`, `Token.ofTyped?_of_typed?`: the others can be read back from kind and text;
- `Token.typed?_injOn`, `Token.hashKey?_injOn`: so these tell tokens apart;
- `Token.length_eraseDups_eq_card`: different tokens are counted once each;
- `Token.typed_tells_token`: the results together.
-/

namespace Disasm68k

/-! ## Optional values of all items -/

section

variable {α β : Type} {items : List α} {view : α → Option β}

/-- What is found for all items is found for each of them. -/
theorem mapM_eq_some_iff {values : List β} :
    items.mapM view = some values ↔ items.map view = values.map some := by
  induction items generalizing values with
  | nil => cases values <;> simp
  | cons item items ih =>
    cases values with
    | nil => simp [Option.bind_eq_some_iff]
    | cons value values => simp [Option.bind_eq_some_iff, ← ih]

theorem mapM_eq_none_iff : items.mapM view = none ↔ ∃ item ∈ items, view item = none := by
  induction items with
  | nil => simp
  | cons item items ih =>
    cases hview : view item with
    | none => simp [hview]
    | some value =>
      have hrest : (item :: items).mapM view = none ↔ items.mapM view = none := by
        rw [List.mapM_cons, hview]
        cases items.mapM view <;> simp
      rw [hrest, ih, List.exists_mem_cons_iff, hview]
      simp

end

namespace Token

variable {token : Token} {tokens : List Token}

/-! ## Tokens without a text -/

/-- The token holds a number of too many digits. -/
def IsTooLong (token : Token) : Prop :=
  ∃ n, (token = .integer n ∨ token = .relative n) ∧ Numeral.TooLong n

theorem isTooLong_integer_iff {n : Int} : IsTooLong (.integer n) ↔ Numeral.TooLong n := by
  constructor
  · rintro ⟨m, hm | hm, hlong⟩
    · cases hm
      exact hlong
    · cases hm
  · intro hlong
    exact ⟨n, .inl rfl, hlong⟩

theorem isTooLong_relative_iff {n : Int} : IsTooLong (.relative n) ↔ Numeral.TooLong n := by
  constructor
  · rintro ⟨m, hm | hm, hlong⟩
    · cases hm
    · cases hm
      exact hlong
  · intro hlong
    exact ⟨n, .inr rfl, hlong⟩

theorem text?_eq_none_iff : token.text? = none ↔ token.IsTooLong := by
  cases token with
  | integer value =>
    rw [isTooLong_integer_iff]
    exact Numeral.decimalText?_eq_none_iff
  | relative displacement =>
    rw [isTooLong_relative_iff, ← Numeral.signedDecimalText?_eq_none_iff]
    exact Option.map_eq_none_iff
  | _ => simp [text?, IsTooLong]

theorem typed?_eq_none_iff : token.typed? = none ↔ token.IsTooLong := by
  rw [typed?, Option.map_eq_none_iff, text?_eq_none_iff]

theorem hashKey?_eq_none_iff : token.hashKey? = none ↔ token.IsTooLong := by
  rw [hashKey?, Option.map_eq_none_iff, text?_eq_none_iff]

/-- The text of a token, where there is one, has the characters of the token. -/
theorem eq_toText_of_text? {text : String} (h : token.text? = some text) : text = token.toText := by
  cases token with
  | integer value => exact (Numeral.writing_eq_some_iff.mp h).2.symm
  | relative displacement =>
    obtain ⟨number, hnumber, rfl⟩ := Option.map_eq_some_iff.mp h
    rw [← (Numeral.writing_eq_some_iff.mp hnumber).2]
    rfl
  | _ => exact (Option.some.inj h).symm

/-! ## Reading tokens back -/

/-- Reads the token of a kind from its characters. The parenthesis and the star that stand before
a suffix and a displacement are passed over. -/
def ofTyped? : TokenKind × String → Option Token
  | (.instruction, mnemonic) => some (.instruction mnemonic)
  | (.separator, mark) => some (.separator mark)
  | (.text, mark) => some (.text mark)
  | (.integer, number) => (Text.decimal? number.toList).map .integer
  | (.register, name) => some (.register name)
  | (.beginMemory, _) => some .beginMemory
  | (.endMemory, closing) => some (.endMemory (String.ofList closing.toList.tail))
  | (.relative, target) => (Text.decimal? target.toList.tail).map .relative

theorem ofTyped?_toText (token : Token) : ofTyped? (token.kind, token.toText) = some token := by
  cases token with
  | instruction mnemonic => rfl
  | separator mark => rfl
  | text mark => rfl
  | register name => rfl
  | beginMemory => rfl
  | integer value =>
    show (Text.decimal? (Numeral.decimal value).toList).map integer = _
    rw [Numeral.decimal?_decimal, Option.map_some]
  | endMemory suffix =>
    show some (endMemory (String.ofList (")" ++ suffix).toList.tail)) = _
    rw [String.toList_append]
    show some (endMemory (String.ofList suffix.toList)) = _
    rw [String.ofList_toList]
  | relative displacement =>
    show (Text.decimal? ("*" ++ Numeral.signedDecimal displacement).toList.tail).map relative = _
    rw [String.toList_append]
    show (Text.decimal? (Numeral.signedDecimal displacement).toList).map relative = _
    rw [Numeral.decimal?_signedDecimal, Option.map_some]

theorem ofTyped?_of_typed? {pair : TokenKind × String} (h : token.typed? = some pair) :
    ofTyped? pair = some token := by
  obtain ⟨text, htext, rfl⟩ := Option.map_eq_some_iff.mp h
  rw [eq_toText_of_text? htext]
  exact ofTyped?_toText token

/-- A pair of a kind and a text is the pair of one token at most. -/
theorem eq_of_typed? {first second : Token} {pair : TokenKind × String}
    (h : first.typed? = some pair) (h' : second.typed? = some pair) : first = second :=
  Option.some.inj ((ofTyped?_of_typed? h).symm.trans (ofTyped?_of_typed? h'))

/-- Every kind is the kind of one constructor. -/
theorem ctorIdx_kind (token : Token) : token.kind.ctorIdx = token.ctorIdx := by
  cases token <;> rfl

theorem hashKey?_eq_map (token : Token) :
    token.hashKey? = token.typed?.map (Prod.map TokenKind.ctorIdx id) := by
  rw [hashKey?, typed?, ← ctorIdx_kind, Option.map_map]
  rfl

/-- Tokens of the same kind and text are equal. -/
theorem typed?_injOn : Set.InjOn typed? { token | ¬ token.IsTooLong } := by
  intro first hfirst second _ h
  obtain ⟨pair, hpair⟩ := Option.ne_none_iff_exists'.mp (mt typed?_eq_none_iff.mp hfirst)
  exact eq_of_typed? hpair (h.symm.trans hpair)

/-- Tokens that are hashed by the same key are equal. -/
theorem hashKey?_injOn : Set.InjOn hashKey? { token | ¬ token.IsTooLong } := by
  have hkind : Function.Injective TokenKind.ctorIdx :=
    Function.LeftInverse.injective TokenKind.ofNat_ctorIdx
  intro first hfirst second hsecond h
  rw [hashKey?_eq_map, hashKey?_eq_map] at h
  exact typed?_injOn hfirst hsecond
    (Option.map_injective (hkind.prodMap Function.injective_id) h)

/-! ## Counting tokens -/

theorem nodup_eraseDups : ∀ tokens : List Token, tokens.eraseDups.Nodup
  | [] => List.nodup_nil
  | token :: rest => by
    rw [List.eraseDups_cons]
    refine List.nodup_cons.mpr ⟨?_, nodup_eraseDups (rest.filter fun other => !other == token)⟩
    rw [List.mem_eraseDups, List.mem_filter]
    rintro ⟨-, hdiffers⟩
    rw [beq_self_eq_true] at hdiffers
    cases hdiffers
termination_by tokens => tokens.length
decreasing_by exact Nat.lt_succ_of_le (List.length_filter_le _ rest)

theorem length_eraseDups (tokens : List Token) :
    tokens.eraseDups.length = tokens.toFinset.card := by
  have hsame : tokens.eraseDups.toFinset = tokens.toFinset := by
    ext token
    rw [List.mem_toFinset, List.mem_toFinset, List.mem_eraseDups]
  rw [← List.toFinset_card_of_nodup (nodup_eraseDups tokens), hsame]

/-- Whatever tells tokens apart has as many different values as there are different tokens. -/
theorem length_eraseDups_eq_card {β : Type} [DecidableEq β] {view : Token → Option β}
    {values : List β} (hview : Set.InjOn view { token | ¬ token.IsTooLong })
    (hshort : ∀ token ∈ tokens, ¬ token.IsTooLong) (h : tokens.mapM view = some values) :
    tokens.eraseDups.length = values.toFinset.card := by
  have himage : tokens.toFinset.image view = values.toFinset.image some := by
    have hmap := congrArg List.toFinset (mapM_eq_some_iff.mp h)
    ext value
    simpa using Finset.ext_iff.mp hmap value
  have hinj : Set.InjOn view tokens.toFinset := by
    intro first hfirst second hsecond
    exact hview (hshort first (List.mem_toFinset.mp hfirst))
      (hshort second (List.mem_toFinset.mp hsecond))
  calc tokens.eraseDups.length
      = tokens.toFinset.card := length_eraseDups tokens
    _ = (tokens.toFinset.image view).card := (Finset.card_image_of_injOn hinj).symm
    _ = (values.toFinset.image some).card := by rw [himage]
    _ = values.toFinset.card := Finset.card_image_of_injective _ (Option.some_injective β)

theorem distinctCount?_eq_none_iff :
    distinctCount? tokens = none ↔ ∃ token ∈ tokens, token.IsTooLong := by
  have hkeys : tokens.mapM hashKey? = none ↔ ∃ token ∈ tokens, token.IsTooLong := by
    simp only [mapM_eq_none_iff, hashKey?_eq_none_iff]
  rw [← hkeys, distinctCount?]
  cases tokens.mapM hashKey? <;> simp

/-- **A token is told by its kind and its text.** A token has no such pair, and no key to be hashed
by, if and only if it holds a number of too many digits. Two other tokens, of any constructors and
with any texts and integers in them, are equal if and only if they have the same kind and text, and
if and only if they are hashed by the same key. So there are as many different tokens in a list of
them as different pairs of a kind and a text, and as different keys, and it is only in such a list
that different tokens can be counted. -/
theorem typed_tells_token (first second : Token) (tokens : List Token) :
    (first.typed? = none ↔ first.IsTooLong) ∧
      (first.hashKey? = none ↔ first.IsTooLong) ∧
      (¬ first.IsTooLong → ¬ second.IsTooLong →
        (first = second ↔ first.typed? = second.typed?) ∧
          (first = second ↔ first.hashKey? = second.hashKey?)) ∧
      (distinctCount? tokens = none ↔ ∃ token ∈ tokens, token.IsTooLong) ∧
      ((∀ token ∈ tokens, ¬ token.IsTooLong) →
        ∃ pairs keys, tokens.mapM typed? = some pairs ∧ tokens.mapM hashKey? = some keys ∧
          distinctCount? tokens = some pairs.toFinset.card ∧
          distinctCount? tokens = some keys.toFinset.card) := by
  refine ⟨typed?_eq_none_iff, hashKey?_eq_none_iff, ?_, distinctCount?_eq_none_iff, ?_⟩
  · intro hfirst hsecond
    exact ⟨(typed?_injOn.eq_iff hfirst hsecond).symm, (hashKey?_injOn.eq_iff hfirst hsecond).symm⟩
  · intro hshort
    have hfound {β : Type} {view : Token → Option β}
        (hview : ∀ token, view token = none ↔ token.IsTooLong) :
        ∃ values, tokens.mapM view = some values := by
      refine Option.ne_none_iff_exists'.mp fun hnone => ?_
      obtain ⟨token, hmem, htoken⟩ := mapM_eq_none_iff.mp hnone
      exact hshort token hmem ((hview token).mp htoken)
    obtain ⟨pairs, hpairs⟩ := hfound fun _ => typed?_eq_none_iff
    obtain ⟨keys, hkeys⟩ := hfound fun _ => hashKey?_eq_none_iff
    have hcount : distinctCount? tokens = some tokens.eraseDups.length := by
      rw [distinctCount?, hkeys]
      rfl
    refine ⟨pairs, keys, hpairs, hkeys, ?_, ?_⟩
    · rw [hcount, length_eraseDups_eq_card typed?_injOn hshort hpairs]
    · rw [hcount, length_eraseDups_eq_card hashKey?_injOn hshort hkeys]

/-- The same characters make different tokens of different kinds, and are counted by kind. -/
theorem typed_tells_token_of_same_characters :
    let tokens : List Token := [.integer 5, .text "5", .relative 5, .text "5"]
    (∀ token ∈ tokens, ¬ token.IsTooLong) ∧
      (Token.integer 5 = .text "5" ↔ (Token.integer 5).typed? = (Token.text "5").typed?) ∧
      tokens.mapM typed? =
        some [(.integer, "5"), (.text, "5"), (.relative, "*+5"), (.text, "5")] ∧
      distinctCount? tokens = some 3 := by
  intro tokens
  have hshort : ∀ token ∈ tokens, ¬ token.IsTooLong := by
    intro token hmem
    rw [← typed?_eq_none_iff]
    revert token
    decide
  have htyped : tokens.mapM typed? =
      some [(.integer, "5"), (.text, "5"), (.relative, "*+5"), (.text, "5")] := by
    decide
  obtain ⟨-, -, hequal, -, hcount⟩ := typed_tells_token (.integer 5) (.text "5") tokens
  obtain ⟨pairs, keys, hpairs, -, hdistinct, -⟩ := hcount hshort
  obtain rfl := Option.some.inj (hpairs.symm.trans htyped)
  refine ⟨hshort, ?_, htyped, hdistinct⟩
  exact (hequal (hshort _ (by decide)) (hshort _ (by decide))).1

/-- Two opposite numbers of too many digits make different tokens, but neither token has a kind and
a text or a key, and a list that holds one of them has no number of different tokens. -/
theorem typed_of_long_integers :
    let long : Int := 10 ^ Numeral.maxDecimalDigits
    ¬ (Token.integer long = .integer (-long) ↔
        (Token.integer long).typed? = (Token.integer (-long)).typed?) ∧
      (Token.integer long).typed? = none ∧ (Token.integer long).hashKey? = none ∧
      distinctCount? [.integer long, .integer long] = none ∧
      [Token.integer long, .integer long].mapM typed? = none := by
  intro long
  have hpos : 0 < long := Int.pow_pos (by decide)
  have hdigits : Numeral.TooLong long := Numeral.tooLong_pow_ten (Nat.le_refl _)
  have hlong := isTooLong_integer_iff.mpr hdigits
  have hlong' := isTooLong_integer_iff.mpr (Numeral.tooLong_neg.mpr hdigits)
  have htyped := typed?_eq_none_iff.mpr hlong
  refine ⟨?_, htyped, hashKey?_eq_none_iff.mpr hlong,
    distinctCount?_eq_none_iff.mpr ⟨_, List.mem_cons_self, hlong⟩,
    mapM_eq_none_iff.mpr ⟨_, List.mem_cons_self, htyped⟩⟩
  intro hsame
  have hequal := hsame.mpr (htyped.trans (typed?_eq_none_iff.mpr hlong').symm)
  rw [Token.integer.injEq] at hequal
  omega

end Token

end Disasm68k
