import Mathlib
import TokenSeal.Json.Form

/-! Reading back rendered values. A rendered value has one form, and the form of a value without
fractions has that value, so such values survive being written and read. -/

namespace TokenSeal

/-! ### Values that can be told apart by their texts -/

namespace Json

mutual

/-- Numbers are whole and fit in 64 bits, and no object has two members of one name. -/
def IsWhole : Json → Prop
  | null => True
  | bool _ => True
  | integer n => -2 ^ 63 ≤ n ∧ n < 2 ^ 64
  | double _ => False
  | string _ => True
  | array items => AllWhole items
  | object members => (members.map (·.1)).Nodup ∧ MembersWhole members

def AllWhole : List Json → Prop
  | [] => True
  | v :: rest => IsWhole v ∧ AllWhole rest

def MembersWhole : List (String × Json) → Prop
  | [] => True
  | (_, v) :: rest => IsWhole v ∧ MembersWhole rest

end

mutual

/-- How deep arrays and objects nest. -/
def depth : Json → Nat
  | array items => itemsDepth items + 1
  | object members => membersDepth members + 1
  | _ => 0

def itemsDepth : List Json → Nat
  | [] => 0
  | v :: rest => max (depth v) (itemsDepth rest)

def membersDepth : List (String × Json) → Nat
  | [] => 0
  | (_, v) :: rest => max (depth v) (membersDepth rest)

end

end Json

theorem Members.insert_of_notMem {ms : Members} {name : String} (h : name ∉ ms.names) (v : Json) :
    ms.insert name v = ms ++ [(name, v)] := by
  induction ms with
  | nil => rfl
  | cons m rest ih =>
    simp only [names, List.map_cons, List.mem_cons, not_or] at h
    simp [insert, Ne.symm h.1, ih h.2]

namespace Form

/-! ### Numbers -/

theorem digits_append (cs ds : List Char) : digits (cs ++ ds) = digits cs ++ digits ds :=
  List.filterMap_append

theorem digit?_digitChar {n : Nat} (h : n < 10) : digit? n.digitChar = some n := by
  have hall : ∀ n < 10, digit? (Nat.digitChar n) = some n := by decide
  exact hall n h

theorem digits_toDigits_of_lt {n : Nat} (h : n < 10) : digits (Nat.toDigits 10 n) = [n] := by
  rw [Nat.toDigits_of_lt_base h]
  simp [digits, digit?_digitChar h]

theorem digits_toDigits_of_le {n : Nat} (h : 10 ≤ n) :
    digits (Nat.toDigits 10 n) = digits (Nat.toDigits 10 (n / 10)) ++ [n % 10] := by
  rw [Nat.toDigits_of_base_le (by decide) h, digits_append]
  simp [digits, digit?_digitChar (Nat.mod_lt n (by decide : 0 < 10))]

theorem isDigit_of_mem_toDigits {n : Nat} {c : Char} (h : c ∈ Nat.toDigits 10 n) :
    isDigit c = true := by
  induction n using Nat.strongRecOn with
  | _ n ih =>
    by_cases hn : n < 10
    · rw [Nat.toDigits_of_lt_base hn, List.mem_singleton] at h
      simp [h, isDigit, digit?_digitChar hn]
    · rw [Nat.toDigits_of_base_le (by decide) (by omega)] at h
      rcases List.mem_append.1 h with h | h
      · exact ih (n / 10) (by omega) h
      · rw [List.mem_singleton] at h
        simp [h, isDigit, digit?_digitChar (Nat.mod_lt n (by decide : 0 < 10))]

theorem absorb_append {m k d : Nat} {ds : List Nat} (h : Numeral.absorb m ds = (k, 0))
    (hd : k * 10 + d ≤ Numeral.u64Max) :
    Numeral.absorb m (ds ++ [d]) = (k * 10 + d, 0) := by
  induction ds generalizing m with
  | nil =>
    simp only [Numeral.absorb, Prod.mk.injEq, and_true] at h
    simp [Numeral.absorb, h, Nat.not_lt.2 hd]
  | cons e ds ih =>
    by_cases he : Numeral.u64Max < m * 10 + e
    · simp [Numeral.absorb, he] at h
    · simp only [Numeral.absorb, he, if_false, List.cons_append] at h ⊢
      exact ih h

theorem absorb_digits {n : Nat} (h : n ≤ Numeral.u64Max) :
    Numeral.absorb 0 (digits (Nat.toDigits 10 n)) = (n, 0) := by
  induction n using Nat.strongRecOn with
  | _ n ih =>
    by_cases hn : n < 10
    · have hle : ¬ Numeral.u64Max < n := Nat.not_lt.2 h
      simp [digits_toDigits_of_lt hn, Numeral.absorb, hle]
    · have hq := ih (n / 10) (by omega) (by omega)
      have hsum : n / 10 * 10 + n % 10 = n := by omega
      rw [digits_toDigits_of_le (by omega), absorb_append hq (by omega), hsum]

/-- A number has no leading zero unless it is zero. -/
theorem digits_toDigits_shape (n : Nat) :
    (n = 0 ∧ digits (Nat.toDigits 10 n) = [0]) ∨
      ∃ d ds, digits (Nat.toDigits 10 n) = (d + 1) :: ds := by
  induction n using Nat.strongRecOn with
  | _ n ih =>
    by_cases hn : n < 10
    · rw [digits_toDigits_of_lt hn]
      cases n with
      | zero => exact .inl ⟨rfl, rfl⟩
      | succ d => exact .inr ⟨d, [], rfl⟩
    · rw [digits_toDigits_of_le (by omega)]
      rcases ih (n / 10) (by omega) with ⟨hz, -⟩ | ⟨d, ds, h⟩
      · omega
      · exact .inr ⟨d, ds ++ [n % 10], by simp [h]⟩

/-- What may stand after a value inside or after a rendered one. -/
def Follows (rest : List Char) : Prop :=
  rest = [] ∨ ∃ c tail, rest = c :: tail ∧ (c = ',' ∨ c = ']' ∨ c = '\x7d')

theorem fraction?_of_follows {rest : List Char} (h : Follows rest) :
    fraction? rest = some ([], rest) := by
  obtain rfl | ⟨c, tail, rfl, rfl | rfl | rfl⟩ := h <;> rfl

theorem power?_of_follows {rest : List Char} (h : Follows rest) :
    power? rest = some (none, rest) := by
  obtain rfl | ⟨c, tail, rfl, rfl | rfl | rfl⟩ := h <;> rfl

theorem takeWhile_isDigit_append {ds rest : List Char} (hds : ∀ c ∈ ds, isDigit c = true)
    (h : Follows rest) : (ds ++ rest).takeWhile isDigit = ds := by
  rw [List.takeWhile_append_of_pos hds]
  obtain rfl | ⟨c, tail, rfl, rfl | rfl | rfl⟩ := h <;> simp [isDigit, digit?]

theorem dropWhile_isDigit_append {ds rest : List Char} (hds : ∀ c ∈ ds, isDigit c = true)
    (h : Follows rest) : (ds ++ rest).dropWhile isDigit = rest := by
  rw [List.dropWhile_append_of_pos hds]
  obtain rfl | ⟨c, tail, rfl, rfl | rfl | rfl⟩ := h <;> simp [isDigit, digit?]

theorem numeral?_toDigits (n : Nat) (negative : Bool) {rest : List Char} (h : Follows rest) :
    numeral? negative (Nat.toDigits 10 n ++ rest) =
      some (⟨negative, digits (Nat.toDigits 10 n), [], none⟩, rest) := by
  have hds : ∀ c ∈ Nat.toDigits 10 n, isDigit c = true := fun _ => isDigit_of_mem_toDigits
  rw [numeral?, takeWhile_isDigit_append hds h, dropWhile_isDigit_append hds h,
    fraction?_of_follows h]
  obtain ⟨-, hz⟩ | ⟨d, ds, hd⟩ := digits_toDigits_shape n
  · simp [hz, power?_of_follows h]
  · simp [hd, power?_of_follows h]

/-! ### Strings -/

theorem hex4?_control : ∀ n < 32,
    hex4? '0' '0' (Json.hexDigit (n / 16)) (Json.hexDigit (n % 16)) = some n := by
  decide

theorem stringUnits?_escape (done : List Nat) (c : Char) (tail : List Char) :
    stringUnits? done (Json.escape c ++ tail) = stringUnits? (c.toNat :: done) tail := by
  by_cases hnamed : c ∈ ['"', '\\', '\x08', '\t', '\n', '\x0c', '\r']
  · simp only [List.mem_cons, List.not_mem_nil, or_false] at hnamed
    obtain rfl | rfl | rfl | rfl | rfl | rfl | rfl := hnamed <;> rfl
  · simp only [List.mem_cons, List.not_mem_nil, or_false, not_or] at hnamed
    obtain ⟨h1, h2, h3, h4, h5, h6, h7⟩ := hnamed
    by_cases hc : c.toNat < 32
    · simp [Json.escape, h1, h2, h3, h4, h5, h6, h7, hc, stringUnits?, hex4?_control c.toNat hc]
    · simp [Json.escape, h1, h2, h3, h4, h5, h6, h7, hc, stringUnits?]

theorem stringUnits?_escaped (done : List Nat) (cs rest : List Char) :
    stringUnits? done (cs.flatMap Json.escape ++ '"' :: rest) =
      some (done.reverse ++ cs.map Char.toNat, rest) := by
  induction cs generalizing done with
  | nil => simp [stringUnits?]
  | cons c cs ih =>
    rw [List.flatMap_cons, List.append_assoc, stringUnits?_escape, ih]
    simp

theorem not_surrogate (c : Char) :
    isHighSurrogate c.toNat = false ∧ isLowSurrogate c.toNat = false := by
  have hv : c.toNat < 0xD800 ∨ (0xDFFF < c.toNat ∧ c.toNat < 0x110000) := c.valid
  simp only [isHighSurrogate, isLowSurrogate, Bool.and_eq_false_iff, decide_eq_false_iff_not]
  omega

theorem joinUnits?_toNat (done cs : List Char) :
    joinUnits? none done (cs.map Char.toNat) = some (done.reverse ++ cs) := by
  induction cs generalizing done with
  | nil => simp [joinUnits?]
  | cons c cs ih =>
    have ⟨hhi, hlo⟩ := not_surrogate c
    simp [joinUnits?, hhi, hlo, ih]

theorem stringBody?_escaped (s : String) (rest : List Char) :
    stringBody? (s.toList.flatMap Json.escape ++ '"' :: rest) = some (some s, rest) := by
  simp [stringBody?, stringUnits?_escaped, joinUnits?_toNat]

/-! ### Values -/

def numeralOf : Int → Numeral
  | .ofNat n => ⟨false, digits (Nat.toDigits 10 n), [], none⟩
  | .negSucc n => ⟨true, digits (Nat.toDigits 10 (n + 1)), [], none⟩

mutual

/-- The form of the rendered text of a value without fractions. -/
def ofJson : Json → Form
  | .null => .null
  | .bool b => .bool b
  | .integer n => .number (numeralOf n)
  | .double _ => .null
  | .string s => .string (some s)
  | .array items => .array (ofItems items)
  | .object members => .object (ofMembers members)

def ofItems : List Json → List Form
  | [] => []
  | v :: rest => ofJson v :: ofItems rest

def ofMembers : List (String × Json) → List (Option String × Form)
  | [] => []
  | (name, v) :: rest => (some name, ofJson v) :: ofMembers rest

end

theorem skipBlanks_cons {c : Char} {cs : List Char} (h : isBlank c = false) :
    skipBlanks (c :: cs) = c :: cs := by
  simp [skipBlanks, h]

theorem follows_itemsChars (items : List Json) (tail : List Char) :
    Follows (Json.itemsChars items ++ tail) := by
  cases items with
  | nil => exact .inr ⟨']', tail, rfl, by simp⟩
  | cons v rest => exact .inr ⟨',', _, rfl, by simp⟩

theorem follows_membersChars (members : List (String × Json)) (tail : List Char) :
    Follows (Json.membersChars members ++ tail) := by
  cases members with
  | nil => exact .inr ⟨'\x7d', tail, rfl, by simp⟩
  | cons m rest => exact .inr ⟨',', _, rfl, by simp⟩

theorem toDigits_eq_cons (n : Nat) : ∃ c cs, Nat.toDigits 10 n = c :: cs ∧ isDigit c = true := by
  cases h : Nat.toDigits 10 n with
  | nil =>
    have hd : digits (Nat.toDigits 10 n) = [] := by
      rw [h]
      rfl
    obtain ⟨-, hs⟩ | ⟨d, ds, hs⟩ := digits_toDigits_shape n <;> rw [hs] at hd <;> cases hd
  | cons c cs =>
    have hc : c ∈ Nat.toDigits 10 n := by simp [h]
    exact ⟨c, cs, rfl, isDigit_of_mem_toDigits hc⟩

theorem mem_of_isDigit {c : Char} (h : isDigit c = true) :
    c ∈ ['0', '1', '2', '3', '4', '5', '6', '7', '8', '9'] := by
  have hall : ∀ n < 58, 48 ≤ n →
      Char.ofNat n ∈ ['0', '1', '2', '3', '4', '5', '6', '7', '8', '9'] := by decide
  have hrange : '0' ≤ c ∧ c ≤ '9' := by
    refine Decidable.byContradiction fun hn => ?_
    simp [isDigit, digit?, hn] at h
  have hlo : 48 ≤ c.toNat := hrange.1
  have hhi : c.toNat ≤ 57 := hrange.2
  rw [← Char.ofNat_toNat c]
  exact hall c.toNat (by omega) hlo

theorem value_digit {fuel depth : Nat} {c : Char} {cs : List Char} (h : isDigit c = true) :
    value (fuel + 1) depth (c :: cs) =
      (numeral? false (c :: cs)).map fun t => (.number t.1, t.2) := by
  have hc := mem_of_isDigit h
  simp only [List.mem_cons, List.not_mem_nil, or_false] at hc
  have hb : skipBlanks (c :: cs) = c :: cs := by
    obtain rfl | rfl | rfl | rfl | rfl | rfl | rfl | rfl | rfl | rfl := hc <;> rfl
  rw [value, hb]
  obtain rfl | rfl | rfl | rfl | rfl | rfl | rfl | rfl | rfl | rfl := hc <;>
    simp <;> split <;> simp [*]

/-- The first character of a value is no blank and closes nothing. -/
theorem chars_eq_cons {v : Json} (hv : v.IsWhole) :
    ∃ c cs, v.chars = c :: cs ∧ isBlank c = false ∧ c ≠ ']' := by
  cases v with
  | null => exact ⟨'n', _, rfl, rfl, by decide⟩
  | bool b => cases b <;> exact ⟨_, _, rfl, rfl, by decide⟩
  | integer n =>
    cases n with
    | ofNat n =>
      obtain ⟨c, cs, h, hc⟩ := toDigits_eq_cons n
      refine ⟨c, cs, h, ?_⟩
      have hdigit := mem_of_isDigit hc
      simp only [List.mem_cons, List.not_mem_nil, or_false] at hdigit
      obtain rfl | rfl | rfl | rfl | rfl | rfl | rfl | rfl | rfl | rfl := hdigit <;>
        exact ⟨rfl, by decide⟩
    | negSucc n => exact ⟨'-', _, rfl, rfl, by decide⟩
  | double x => exact hv.elim
  | string s => exact ⟨'"', _, rfl, rfl, by decide⟩
  | array items => cases items <;> exact ⟨'[', _, rfl, rfl, by decide⟩
  | object members =>
    rcases members with _ | ⟨⟨name, v⟩, rest⟩ <;> exact ⟨'\x7b', _, rfl, rfl, by decide⟩

theorem value_openArray {fuel depth : Nat} {c : Char} {cs : List Char} (hd : 1 < depth)
    (hb : isBlank c = false) (hc : c ≠ ']') :
    value (fuel + 1) depth ('[' :: c :: cs) = items fuel (depth - 1) [] (c :: cs) := by
  simp [value, skipBlanks_cons (by decide : isBlank '[' = false), skipBlanks_cons hb,
    Nat.not_le.2 hd, hc]

theorem value_openObject {fuel depth : Nat} {cs : List Char} (hd : 1 < depth) :
    value (fuel + 1) depth ('\x7b' :: '"' :: cs) = members fuel (depth - 1) [] ('"' :: cs) := by
  simp [value, skipBlanks_cons (by decide : isBlank '\x7b' = false),
    skipBlanks_cons (by decide : isBlank '"' = false), Nat.not_le.2 hd]

theorem length_itemsChars_pos (vs : List Json) : 0 < (Json.itemsChars vs).length := by
  cases vs <;> simp [Json.itemsChars]

theorem length_membersChars_pos (ms : List (String × Json)) :
    0 < (Json.membersChars ms).length := by
  rcases ms with _ | ⟨⟨name, v⟩, rest⟩ <;> simp [Json.membersChars]

/-- Whole values are read back from their own text, which pays for what that costs. -/
def ReadsValues (fuel : Nat) : Prop :=
  ∀ v : Json, v.IsWhole → ∀ depth rest, v.depth < depth → v.chars.length ≤ fuel →
    Follows rest → value fuel depth (v.chars ++ rest) = some (ofJson v, rest)

def ReadsItems (fuel : Nat) : Prop :=
  ∀ v vs, v.IsWhole → Json.AllWhole vs → ∀ depth done rest, Json.itemsDepth (v :: vs) < depth →
    v.chars.length + (Json.itemsChars vs).length ≤ fuel →
      items fuel depth done (v.chars ++ (Json.itemsChars vs ++ rest)) =
        some (.array (done.reverse ++ ofItems (v :: vs)), rest)

def ReadsMembers (fuel : Nat) : Prop :=
  ∀ name v ms, v.IsWhole → Json.MembersWhole ms → ∀ depth done rest,
    Json.membersDepth ((name, v) :: ms) < depth →
    (Json.quoted name).length + v.chars.length + (Json.membersChars ms).length ≤ fuel →
      members fuel depth done (Json.quoted name ++ ':' :: v.chars ++ Json.membersChars ms ++ rest) =
        some (.object (done.reverse ++ ofMembers ((name, v) :: ms)), rest)

theorem readsValues_succ {fuel : Nat} (ihi : ReadsItems fuel) (ihm : ReadsMembers fuel) :
    ReadsValues (fuel + 1) := by
  intro v hv depth rest hd hf hrest
  cases v with
  | null => simp [Json.chars, value, skipBlanks, isBlank, ofJson]
  | bool b => cases b <;> simp [Json.chars, value, skipBlanks, isBlank, ofJson]
  | integer n =>
    cases n with
    | ofNat n =>
      obtain ⟨c, cs, hn, hc⟩ := toDigits_eq_cons n
      have hread := numeral?_toDigits n false hrest
      rw [hn, List.cons_append] at hread
      simp only [Json.chars, Json.integerChars, hn, List.cons_append, value_digit hc, hread,
        ofJson, numeralOf, Option.map_some]
    | negSucc n =>
      have hread := numeral?_toDigits (n + 1) true hrest
      simp [Json.chars, Json.integerChars, value, hread, ofJson, numeralOf, skipBlanks_cons,
        isBlank]
  | double x => exact hv.elim
  | string s =>
    simp [Json.chars, Json.quoted, value, skipBlanks_cons, isBlank, stringBody?_escaped,
      ofJson]
  | array items =>
    simp only [Json.depth] at hd
    cases items with
    | nil =>
      simp [Json.chars, value, skipBlanks_cons, isBlank, ofJson, ofItems]
      omega
    | cons v vs =>
      obtain ⟨hv, hvs⟩ := hv
      obtain ⟨c, cs, hcs, hb, hc⟩ := chars_eq_cons hv
      simp only [Json.chars, List.length_cons, List.length_append] at hf
      have hi := ihi v vs hv hvs (depth - 1) [] rest (by omega) (by omega)
      rw [hcs, List.cons_append] at hi
      simp only [Json.chars, hcs, List.cons_append, List.append_assoc,
        value_openArray (by omega : 1 < depth) hb hc, hi, ofJson, List.reverse_nil,
        List.nil_append]
  | object members =>
    simp only [Json.depth] at hd
    rcases members with _ | ⟨⟨name, v⟩, ms⟩
    · simp [Json.chars, value, skipBlanks_cons, isBlank, ofJson, ofMembers]
      omega
    · obtain ⟨-, hv, hms⟩ := hv
      simp only [Json.chars, List.length_cons, List.length_append] at hf
      have hm := ihm name v ms hv hms (depth - 1) [] rest (by omega) (by omega)
      simp only [Json.quoted, List.cons_append, List.append_assoc, List.nil_append] at hm
      simp only [Json.chars, Json.quoted, List.cons_append, List.append_assoc,
        value_openObject (by omega : 1 < depth), hm, ofJson, List.reverse_nil,
        List.nil_append]

theorem readsItems_succ {fuel : Nat} (ihv : ReadsValues fuel) (ihi : ReadsItems fuel) :
    ReadsItems (fuel + 1) := by
  intro v vs hv hvs depth done rest hd hf
  have hlen := length_itemsChars_pos vs
  simp only [Json.itemsDepth] at hd
  rw [items, ihv v hv depth _ (by omega) (by omega) (follows_itemsChars vs rest)]
  cases vs with
  | nil => simp [Json.itemsChars, skipBlanks_cons (by decide : isBlank ']' = false), ofItems]
  | cons w ws =>
    obtain ⟨hw, hws⟩ := hvs
    simp only [Json.itemsChars, List.length_append, List.length_cons] at hf
    have hrest := ihi w ws hw hws depth (ofJson v :: done) rest (by omega) (by omega)
    simp only [Json.itemsChars, List.cons_append, List.append_assoc,
      skipBlanks_cons (by decide : isBlank ',' = false), hrest, ofItems, List.reverse_cons,
      List.nil_append]

theorem readsMembers_succ {fuel : Nat} (ihv : ReadsValues fuel) (ihm : ReadsMembers fuel) :
    ReadsMembers (fuel + 1) := by
  intro name v ms hv hms depth done rest hd hf
  have hlen := length_membersChars_pos ms
  simp only [Json.membersDepth] at hd
  have hread := ihv v hv depth (Json.membersChars ms ++ rest) (by omega) (by omega)
    (follows_membersChars ms rest)
  simp only [Json.quoted, List.cons_append, List.append_assoc, List.nil_append, members,
    skipBlanks_cons (by decide : isBlank '"' = false), stringBody?_escaped,
    skipBlanks_cons (by decide : isBlank ':' = false), hread]
  rcases ms with _ | ⟨⟨name', w⟩, ms⟩
  · simp [Json.membersChars, skipBlanks_cons (by decide : isBlank '\x7d' = false), ofMembers]
  · have ⟨hw, hms⟩ := hms
    simp only [Json.membersChars, List.length_append, List.length_cons] at hf
    have hrest := ihm name' w ms hw hms depth ((some name, ofJson v) :: done) rest (by omega)
      (by omega)
    simp only [Json.quoted, List.cons_append, List.append_assoc, List.nil_append] at hrest
    simp only [Json.membersChars, Json.quoted, List.cons_append, List.append_assoc,
      List.nil_append, skipBlanks_cons (by decide : isBlank ',' = false), hrest, ofMembers,
      List.reverse_cons]

theorem value_chars (fuel : Nat) : ReadsValues fuel ∧ ReadsItems fuel ∧ ReadsMembers fuel := by
  induction fuel with
  | zero =>
    refine ⟨fun v hv depth rest _ hf _ => ?_, fun v vs hv _ depth done rest _ hf => ?_,
      fun name v ms _ _ depth done rest _ hf => ?_⟩
    · obtain ⟨c, cs, h, -⟩ := chars_eq_cons hv
      simp [h] at hf
    · obtain ⟨c, cs, h, -⟩ := chars_eq_cons hv
      simp [h] at hf
    · simp [Json.quoted] at hf
  | succ fuel ih =>
    obtain ⟨ihv, ihi, ihm⟩ := ih
    exact ⟨readsValues_succ ihi ihm, readsItems_succ ihv ihi, readsMembers_succ ihv ihm⟩

theorem value?_numeralOf {n : Int} (h : -2 ^ 63 ≤ n ∧ n < 2 ^ 64) :
    (numeralOf n).value? = some (.integer n) := by
  cases n with
  | ofNat n =>
    have hn : n ≤ Numeral.u64Max := by
      have hmax : Numeral.u64Max = 2 ^ 64 - 1 := rfl
      have hlt := h.2
      simp only [Int.ofNat_eq_natCast] at hlt
      omega
    simp [numeralOf, Numeral.value?, absorb_digits hn]
  | negSucc n =>
    have hlo : n + 1 ≤ 2 ^ 63 := by omega
    have hn : n + 1 ≤ Numeral.u64Max := Nat.le_trans hlo (by decide)
    simp only [numeralOf, Numeral.value?, absorb_digits hn]
    rw [if_neg (by simp), if_neg (by simp), if_pos ⟨Nat.succ_ne_zero n, hlo⟩]
    rfl

mutual

theorem value?_ofJson : ∀ {v : Json}, v.IsWhole → (ofJson v).value? = some v
  | .null, _ => rfl
  | .bool _, _ => rfl
  | .integer _, h => value?_numeralOf h
  | .double _, h => h.elim
  | .string _, _ => rfl
  | .array items, h => by
    simp [ofJson, value?, values?_ofItems (v := items) [] h]
  | .object members, h => by
    simp [ofJson, value?, memberValues?_ofMembers (v := members) [] h.2 h.1]

theorem values?_ofItems : ∀ {v : List Json} (done : List Json), Json.AllWhole v →
    values? done (ofItems v) = some (done.reverse ++ v)
  | [], done, _ => by simp [ofItems, values?]
  | v :: rest, done, h => by
    simp [ofItems, values?, value?_ofJson h.1, values?_ofItems (v :: done) h.2]

theorem memberValues?_ofMembers : ∀ {v : List (String × Json)} (done : Members),
    Json.MembersWhole v → ((done ++ v).map (·.1)).Nodup →
    memberValues? done (ofMembers v) = some (done ++ v)
  | [], done, _, _ => by simp [ofMembers, memberValues?]
  | (name, v) :: rest, done, h, hnd => by
    have hname : name ∉ done.names := by
      rw [List.map_append, List.map_cons] at hnd
      exact fun hin => (List.nodup_append.1 hnd).2.2 name hin name (by simp) rfl
    have hrest : ((done ++ [(name, v)] ++ rest).map (·.1)).Nodup := by simpa using hnd
    simp [ofMembers, memberValues?, value?_ofJson h.1, Members.insert_of_notMem hname,
      memberValues?_ofMembers (done ++ [(name, v)]) h.2 hrest]

end

end Form

namespace Json

/-- A whole value that nests no deeper than the limit is read back from its text. -/
theorem parse?_render {v : Json} (hv : v.IsWhole) (hd : v.depth < depthLimit) :
    parse? v.render = some v := by
  have hread := (Form.value_chars (v.chars.length + 1)).1 v hv depthLimit [] hd (by omega)
    (.inl rfl)
  rw [List.append_nil] at hread
  simp [parse?, Form.read?, render, hread, Form.skipBlanks, Form.value?_ofJson hv]

end Json

end TokenSeal
