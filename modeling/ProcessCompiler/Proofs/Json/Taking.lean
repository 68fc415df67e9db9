import Mathlib.Data.List.Nodup
import ProcessCompiler.Json.Record
import ProcessCompiler.Json.Value
/-!
# What readers of JSON take

The judgement `Takes` says that a reader takes a given text from wherever it
stands and gives a given value, whatever comes behind. It has one rule for each
way of putting readers together. From these follow the readers of scalars
(`takes_string`, `takes_readFlag`), of lists (`takes_readList`) and of records
(`takes_readRecord`), each on the compact text of the value it gives.
-/

namespace ProcessCompiler

namespace Json

open Text

variable {α β : Type}

/-- **A reader takes a text** that stands before `ahead` and gives a value. -/
def TakesBefore (ahead : List Char) (r : Read α) (text : List Char) (a : α) : Prop :=
  ∀ rest place, ∃ place', r ⟨text ++ (ahead ++ rest), place⟩ = .ok a ⟨ahead ++ rest, place'⟩

/-- A reader takes a text, whatever stands behind it. -/
abbrev Takes (r : Read α) (text : List Char) (a : α) : Prop := TakesBefore [] r text a

/-! ## Readers in a row -/

section Rules

variable {r : Read α} {k : α → Read β} {text t ahead : List Char} {a : α} {b : β}

/-- A value is given without taking anything. -/
theorem takesBefore_pure (ahead : List Char) (a : α) :
    TakesBefore ahead (pure a : Read α) [] a :=
  fun _ place => ⟨place, rfl⟩

/-- Readers in a row take texts in a row. The first may look ahead at what the
second begins with. -/
theorem TakesBefore.bind {l : List Char} (hr : TakesBefore l r text a)
    (hk : TakesBefore ahead (k a) (l ++ t) b) :
    TakesBefore ahead (r >>= k) (text ++ (l ++ t)) b := by
  intro rest place
  obtain ⟨place₁, h₁⟩ := hr (t ++ (ahead ++ rest)) place
  obtain ⟨place₂, h₂⟩ := hk rest place₁
  refine ⟨place₂, ?_⟩
  rw [← List.append_assoc l] at h₁
  rw [List.append_assoc]
  change EStateM.bind r k _ = _
  rw [EStateM.bind, h₁]
  exact h₂

/-- Readers in a row, where the first does not look ahead. -/
theorem Takes.bind (hr : Takes r text a) (hk : TakesBefore ahead (k a) t b) :
    TakesBefore ahead (r >>= k) (text ++ t) b :=
  TakesBefore.bind (t := t) hr hk

/-- Readers in a row, where the second takes nothing. -/
theorem TakesBefore.bind_nil (hr : TakesBefore ahead r text a)
    (hk : TakesBefore ahead (k a) [] b) : TakesBefore ahead (r >>= k) text b := by
  intro rest place
  obtain ⟨place₁, h₁⟩ := hr rest place
  obtain ⟨place₂, h₂⟩ := hk rest place₁
  refine ⟨place₂, ?_⟩
  change EStateM.bind r k _ = _
  rw [EStateM.bind, h₁]
  exact h₂

/-- A reader whose value is only looked at takes what it takes. -/
theorem Takes.bind_pure (hr : Takes r text a) (f : α → β) :
    Takes (do let x ← r; return f x) text (f a) :=
  TakesBefore.bind_nil hr (takesBefore_pure [] (f a))

/-- Looking for the next word takes nothing where there are no blanks. -/
theorem takes_peekWord {k : Option Char → Read β} {c : Char} (hc : isGap c = false)
    (hk : TakesBefore ahead (k (some c)) (c :: text) b) :
    TakesBefore ahead (peekWord >>= k) (c :: text) b := by
  intro rest place
  obtain ⟨place', h⟩ := hk rest place
  refine ⟨place', ?_⟩
  change EStateM.bind peekWord k _ = _
  rw [EStateM.bind, List.cons_append, peekWord]
  simp only [afterGap, hc, Bool.false_eq_true, if_false]
  exact h

/-- Looking for the next word where the text ends. -/
theorem takesBefore_peekWord {k : Option Char → Read β} {c : Char} (hc : isGap c = false)
    (hk : TakesBefore (c :: ahead) (k (some c)) [] b) :
    TakesBefore (c :: ahead) (peekWord >>= k) [] b := by
  intro rest place
  obtain ⟨place', h⟩ := hk rest place
  refine ⟨place', ?_⟩
  change EStateM.bind peekWord k _ = _
  rw [EStateM.bind, List.nil_append, List.cons_append, peekWord]
  simp only [afterGap, hc, Bool.false_eq_true, if_false]
  exact h

/-- A character that was seen is taken. -/
theorem takes_eat (c : Char) : Takes eat [c] () := fun _ place => ⟨place.after c, rfl⟩

/-- The next character is taken. -/
theorem takes_next (c : Char) : Takes next [c] (some c) := fun _ place => ⟨place.after c, rfl⟩

/-- Where a failure would be settled does not matter to what succeeds. -/
theorem TakesBefore.located (h : TakesBefore ahead r text a) :
    TakesBefore ahead (located r) text a := by
  intro rest place
  obtain ⟨place', h⟩ := h rest place
  exact ⟨place', by rw [Json.located, h]⟩

/-- What stands between brackets and the closing bracket. -/
theorem TakesBefore.closing {close : Read Unit} (hbody : TakesBefore t r text a)
    (hclose : Takes close t ()) : Takes (closing r close) (text ++ t) a := by
  intro rest place
  obtain ⟨place₁, h₁⟩ := hbody rest place
  obtain ⟨place₂, h₂⟩ := hclose rest place₁
  refine ⟨place₂, ?_⟩
  rw [List.nil_append] at h₂ ⊢
  rw [List.append_assoc, Json.closing, h₁]
  simp only [h₂]

/-- A reader that counts takes a text if it does so with every count that the
length of the text allows. -/
theorem TakesBefore.of_count {r : Nat → Read α}
    (h : ∀ n, text.length < n → TakesBefore ahead (r n) text a) :
    TakesBefore ahead (fun c => r (c.rest.length + 1) c) text a := by
  intro rest place
  have hlength : text.length ≤ (text ++ (ahead ++ rest)).length := by
    rw [List.length_append]
    exact Nat.le_add_right _ _
  exact h _ (Nat.lt_succ_of_le hlength) rest place

end Rules

/-! ## Words and strings -/

/-- The letters of a word. -/
theorem takes_word (cs : List Char) : Takes (word cs) cs () := by
  induction cs with
  | nil => exact takesBefore_pure [] ()
  | cons c cs ih =>
    refine (takes_next c).bind (t := cs) ?_
    simpa using ih

/-- A control character is written as its number in four digits. -/
theorem controlEscape_of_lt {c : Char} (hc : c.toNat < 0x20) :
    ∃ x y, controlEscape c = ['\\', 'u', '0', '0', x, y] ∧
      ∃ m ∈ hexValue? x, ∃ n ∈ hexValue? y, m * 16 + n = c.toNat := by
  have hall : ∀ k < 0x20, controlEscape (Char.ofNat k) =
      ['\\', 'u', '0', '0', (k / 16).digitChar, (k % 16).digitChar] ∧
        hexValue? (k / 16).digitChar = some (k / 16) ∧
          hexValue? (k % 16).digitChar = some (k % 16) := by
    decide
  obtain ⟨htext, hdiv, hmod⟩ := hall c.toNat hc
  rw [Char.ofNat_toNat] at htext
  exact ⟨_, _, htext, _, hdiv, _, hmod, Nat.div_add_mod' c.toNat 16⟩

/-- The number of a control character. -/
theorem takes_unicodeEscape {c x y : Char} {m n : Nat} (hm : hexValue? x = some m)
    (hn : hexValue? y = some n) (hc : m * 16 + n = c.toNat) (hlt : c.toNat < 0x20) :
    Takes unicodeEscape ['0', '0', x, y] c := by
  have hzero : hexValue? '0' = some 0 := by decide
  have hhex : Takes hexEscape ['0', '0', x, y] c.toNat := by
    intro rest place
    refine ⟨(((place.after '0').after '0').after x).after y, ?_⟩
    simp only [hexEscape, List.cons_append, hzero, hm, hn, Nat.zero_mul, Nat.zero_add, hc,
      List.nil_append]
  have hplain : (0xDC00 ≤ c.toNat && c.toNat ≤ 0xDFFF) = false ∧
      (0xD800 ≤ c.toNat && c.toNat ≤ 0xDBFF) = false := by
    constructor <;> simp <;> omega
  refine hhex.bind (t := []) ?_
  simp only [hplain.1, hplain.2, Bool.false_eq_true, if_false, Char.ofNat_toNat]
  exact takesBefore_pure [] c

/-- A character that is escaped by a letter. -/
theorem takes_escape_letter {letter c : Char} (h : letterEscape? letter = some c)
    (hne : letter ≠ 'u') : Takes escape [letter] c := by
  refine (takes_next letter).bind (t := []) ?_
  split
  · contradiction
  · rename_i heq
    exact absurd (Option.some.inj heq) hne
  · rename_i heq
    cases heq
    rw [h]
    exact takesBefore_pure [] c

/-- **A character of a string** stands for itself, or behind a backslash is
what an escape gives back. -/
theorem escapeChar_cases (c : Char) :
    (escapeChar c = [c] ∧ c ≠ '"' ∧ c ≠ '\\' ∧ isControl c = false) ∨
      ∃ text, escapeChar c = '\\' :: text ∧ Takes escape text c := by
  have hletter : ∀ letter d : Char, letterEscape? letter = some d → letter ≠ 'u' → c = d →
      ∃ text, ['\\', letter] = '\\' :: text ∧ Takes escape text c :=
    fun letter d hsome hne heq => ⟨[letter], rfl, heq ▸ takes_escape_letter hsome hne⟩
  have hnumber : ∀ n : Nat, (c.toNat == n) = true → c = Char.ofNat n := fun n hn => by
    rw [← beq_iff_eq.1 hn, Char.ofNat_toNat]
  fun_cases escapeChar c with
  | case1 h => exact .inr (hletter _ '"' rfl (by decide) (beq_iff_eq.1 h))
  | case2 _ h => exact .inr (hletter _ '\\' rfl (by decide) (beq_iff_eq.1 h))
  | case3 _ _ h => exact .inr (hletter _ '\n' rfl (by decide) (beq_iff_eq.1 h))
  | case4 _ _ _ h => exact .inr (hletter _ '\r' rfl (by decide) (beq_iff_eq.1 h))
  | case5 _ _ _ _ h => exact .inr (hletter _ '\t' rfl (by decide) (beq_iff_eq.1 h))
  | case6 _ _ _ _ _ h => exact .inr (hletter _ (Char.ofNat 8) rfl (by decide) (hnumber 8 h))
  | case7 _ _ _ _ _ _ h => exact .inr (hletter _ (Char.ofNat 12) rfl (by decide) (hnumber 12 h))
  | case8 _ _ _ _ _ _ _ hcontrol =>
    obtain ⟨x, y, htext, m, hm, n, hn, hvalue⟩ := controlEscape_of_lt hcontrol
    refine .inr ⟨_, htext, ?_⟩
    exact (takes_next 'u').bind (takes_unicodeEscape hm hn hvalue hcontrol)
  | case9 hquote hslash _ _ _ _ _ hcontrol =>
    refine .inl ⟨rfl, ?_, ?_, decide_eq_false hcontrol⟩
    · exact fun heq => hquote (beq_iff_eq.2 heq)
    · exact fun heq => hslash (beq_iff_eq.2 heq)

/-- The rest of a string, behind what was read of it. -/
theorem takes_stringRest (cs read : List Char) (n : Nat) (hn : cs.length < n) :
    Takes (stringRest n read) (cs.flatMap escapeChar ++ ['"'])
      (String.ofList (read.reverse ++ cs)) := by
  -- On the characters that are left. The count falls by one with each of them,
  -- however many are written for it, so it lasts to the quote.
  induction cs generalizing read n with
  | nil =>
    cases n with
    | zero => cases hn
    | succ n =>
      rw [List.append_nil]
      exact (takes_next '"').bind (t := []) (takesBefore_pure [] _)
  | cons c cs ih =>
    cases n with
    | zero => cases hn
    | succ n =>
      have hrest := ih (c :: read) n (Nat.lt_of_succ_lt_succ hn)
      rw [List.reverse_cons, List.append_assoc, List.singleton_append] at hrest
      rw [List.flatMap_cons, List.append_assoc]
      rcases escapeChar_cases c with ⟨hself, hquote, hslash, hcontrol⟩ | ⟨text, htext, htakes⟩
      · rw [hself]
        refine (takes_next c).bind ?_
        split
        · contradiction
        · rename_i heq
          exact absurd (Option.some.inj heq) hquote
        · rename_i heq
          exact absurd (Option.some.inj heq) hslash
        · rename_i heq
          cases heq
          rw [if_neg (by simp [hcontrol])]
          exact hrest
      · rw [htext, List.cons_append]
        exact (takes_next '\\').bind (htakes.bind hrest)

/-- Texts in a row are at least as long as they are many. -/
theorem length_le_length_flatMap {f : α → List Char} (hf : ∀ a, f a ≠ []) (l : List α) :
    l.length ≤ (l.flatMap f).length := by
  induction l with
  | nil => exact Nat.le_refl _
  | cons a l ih =>
    have hpos : 0 < (f a).length := List.length_pos_iff.2 (hf a)
    rw [List.flatMap_cons, List.length_append, List.length_cons]
    omega

/-- **A string**, behind its opening quote. -/
theorem takes_string (s : String) : Takes string (s.toList.flatMap escapeChar ++ ['"']) s := by
  have hlength : s.toList.length ≤ (s.toList.flatMap escapeChar).length := by
    refine length_le_length_flatMap (fun c => ?_) _
    rcases escapeChar_cases c with ⟨hself, -⟩ | ⟨text, htext, -⟩
    · simp [hself]
    · simp [htext]
  refine TakesBefore.of_count (r := fun n => stringRest n []) fun n hn => ?_
  rw [List.length_append] at hn
  have h := takes_stringRest s.toList [] n (by omega)
  rwa [List.reverse_nil, List.nil_append, String.ofList_toList] at h

/-! ## Scalars -/

/-- A string as a value. -/
theorem takes_stringAs (expected s : String) :
    Takes (stringAs expected) (stringText s).toList s := by
  rw [stringText, String.toList_ofList]
  refine TakesBefore.located (takes_peekWord (by decide) ?_)
  exact (takes_eat '"').bind (takes_string s)

theorem takes_readText (s : String) : Takes readText (text s).compact.toList s := by
  rw [compact]
  exact takes_stringAs "a string" s

/-- A word as a value: its first letter is seen, and the others have to follow. -/
theorem takes_eat_word {c : Char} {cs : List Char} (a : α) :
    Takes (do eat; word cs; return a) (c :: cs) a :=
  (takes_eat c).bind ((takes_word cs).bind_pure fun _ => a)

theorem takes_readFlag (b : Bool) : Takes readFlag (flag b).compact.toList b := by
  have htext : (flag b).compact.toList =
      if b then 't' :: "rue".toList else 'f' :: "alse".toList := by
    cases b <;> simp [compact]
  rw [htext]
  cases b with
  | false => exact TakesBefore.located (takes_peekWord (by decide) (takes_eat_word false))
  | true => exact TakesBefore.located (takes_peekWord (by decide) (takes_eat_word true))

/-- A text or nothing. -/
theorem takes_readOptional (s : Option String) :
    Takes (readOptional readText) (ofOption s).compact.toList s := by
  cases s with
  | none =>
    have htext : (ofOption none).compact.toList = 'n' :: "ull".toList := by simp [ofOption, compact]
    rw [htext]
    exact takes_peekWord (by decide) (takes_eat_word none)
  | some s =>
    have h := (takes_readText s).bind_pure some
    rw [compact, stringText, String.toList_ofList] at h
    rw [ofOption, compact, stringText, String.toList_ofList]
    exact takes_peekWord (by decide) h

/-! ## Texts with commas between them -/

theorem compactItems_eq_map (items : List Json) : compactItems items = items.map compact := by
  induction items with
  | nil => rfl
  | cons j rest ih => rw [compactItems, ih, List.map_cons]

theorem compactFields_eq_map (fields : List (String × Json)) :
    compactFields fields = fields.map fun f => stringText f.1 ++ ":" ++ f.2.compact := by
  induction fields with
  | nil => rfl
  | cons f rest ih => rw [compactFields, ih, List.map_cons]

/-- Behind the first text, every text stands behind a comma. -/
theorem toList_commas_cons (s : String) (items : List String) :
    (commas (s :: items)).toList = s.toList ++ items.flatMap fun t => ',' :: t.toList := by
  rw [commas, String.toList_intercalate]
  induction items generalizing s with
  | nil => simp [List.intercalate]
  | cons t items ih =>
    have h := ih t
    rw [List.map_cons] at h ⊢
    rw [List.map_cons, List.intercalate_cons_cons, h, List.flatMap_cons]
    simp

/-- A string begins with its quote. -/
theorem toList_stringText (s : String) :
    (stringText s).toList = '"' :: (s.toList.flatMap escapeChar ++ ['"']) := by
  rw [stringText, String.toList_ofList, List.cons_append]

/-! ## Lists -/

theorem takesBefore_hasItem_end (first : Bool) : TakesBefore [']'] (hasItem first) [] false :=
  takesBefore_peekWord (c := ']') (by decide) (takesBefore_pure _ _)

theorem takesBefore_hasItem_first : TakesBefore ['"'] (hasItem true) [] true :=
  takesBefore_peekWord (c := '"') (by decide) (takesBefore_pure _ _)

theorem takesBefore_hasItem_more : TakesBefore ['"'] (hasItem false) [','] true :=
  takes_peekWord (c := ',') (by decide) ((takes_eat ',').bind
    (takesBefore_peekWord (c := '"') (by decide) (takesBefore_pure _ _)))

/-- The strings of a list behind its first. -/
theorem takesBefore_listItems (items read : List String) (n : Nat) (hn : items.length < n) :
    TakesBefore [']'] (listItems readText n false read)
      (items.flatMap fun s => ',' :: (stringText s).toList) (read.reverse ++ items) := by
  induction items generalizing read n with
  | nil =>
    cases n with
    | zero => cases hn
    | succ n =>
      rw [List.append_nil]
      exact (takesBefore_hasItem_end false).bind_nil (takesBefore_pure _ _)
  | cons s items ih =>
    cases n with
    | zero => cases hn
    | succ n =>
      have hrest := ih (s :: read) n (Nat.lt_of_succ_lt_succ hn)
      rw [List.reverse_cons, List.append_assoc, List.singleton_append] at hrest
      have hitem := (takes_stringAs "a string" s).bind
        (k := fun s => listItems readText n false (s :: read)) hrest
      rw [toList_stringText] at hitem
      rw [List.flatMap_cons, toList_stringText]
      exact takesBefore_hasItem_more.bind (l := ['"']) hitem

/-- **A list of strings.** -/
theorem takes_readList (items : List String) :
    Takes (readList readText) (list (items.map text)).compact.toList items := by
  have htext : (list (items.map text)).compact.toList =
      '[' :: ((commas (items.map stringText)).toList ++ [']']) := by
    rw [compact, compactItems_eq_map, List.map_map]
    simp
    rfl
  rw [htext]
  refine TakesBefore.located (takes_peekWord (c := '[') (by decide) ?_)
  refine (takes_eat '[').bind (TakesBefore.closing ?_ ?_)
  · refine TakesBefore.of_count (r := fun n => listItems readText n true []) fun n hn => ?_
    cases n with
    | zero => cases hn
    | succ n =>
      -- The first item has no comma before it.
      cases items with
      | nil => exact (takesBefore_hasItem_end true).bind_nil (takesBefore_pure _ _)
      | cons s items =>
        rw [List.map_cons, toList_commas_cons, List.flatMap_map] at hn ⊢
        have hcount : items.length < n := by
          have hlength := length_le_length_flatMap
            (f := fun s => ',' :: (stringText s).toList) (by simp) items
          rw [List.length_append, toList_stringText, List.length_cons] at hn
          omega
        have hitem := (takes_stringAs "a string" s).bind
          (k := fun s => listItems readText n false [s]) (takesBefore_listItems items [s] n hcount)
        rw [toList_stringText] at hitem ⊢
        exact takesBefore_hasItem_first.bind (l := ['"']) hitem
  · exact takes_peekWord (c := ']') (by decide) (takes_eat ']')

/-! ## Records -/

/-- A field of an object, with what reading it does to a record. -/
structure Filling (α : Type) where
  key : String
  value : Json
  put : α → α

namespace Filling

/-- The text of a field. -/
def toText (f : Filling α) : List Char := (stringText f.key).toList ++ ':' :: f.value.compact.toList

/-- Among some fields of a record there is one that reads the value. -/
def Fits (members : List (Member α)) (f : Filling α) : Prop :=
  ∃ m, members.find? (·.name == f.key) = some m ∧
    ∀ record, Takes (m.read record) f.value.compact.toList (f.put record)

/-- The record after some fields were read. -/
def fill (record : α) (fields : List (Filling α)) : α := fields.foldl (fun r f => f.put r) record

/-- The object of some fields. -/
def object (fields : List (Filling α)) : Json := .object (fields.map fun f => (f.key, f.value))

theorem toList_compact_object (fields : List (Filling α)) :
    (object fields).compact.toList =
      '\x7b' :: ((commas (fields.map fun f => String.ofList f.toText)).toList ++ ['\x7d']) := by
  have hfields : fields.map (fun f => stringText f.key ++ ":" ++ f.value.compact) =
      fields.map fun f => String.ofList f.toText := by
    refine List.map_congr_left fun f _ => ?_
    rw [← String.toList_inj]
    simp [toText]
  rw [object, compact, compactFields_eq_map, List.map_map]
  simp [← hfields]
  rfl

end Filling

theorem takesBefore_hasKey_end (first : Bool) : TakesBefore ['\x7d'] (hasKey first) [] false :=
  takesBefore_peekWord (c := '\x7d') (by decide) (takesBefore_pure _ _)

theorem takesBefore_hasKey_first : TakesBefore ['"'] (hasKey true) [] true :=
  takesBefore_peekWord (c := '"') (by decide) (takesBefore_pure _ _)

theorem takesBefore_hasKey_more : TakesBefore ['"'] (hasKey false) [','] true :=
  takes_peekWord (c := ',') (by decide) ((takes_eat ',').bind
    (takesBefore_peekWord (c := '"') (by decide) (takesBefore_pure _ _)))

theorem takes_colon : Takes colon [':'] () := takes_peekWord (c := ':') (by decide) (takes_eat ':')

/-- **One field of an object**, and then the others. -/
theorem takesBefore_member {members : List (Member α)} {f : Filling α} (hf : f.Fits members)
    {first : Bool} {comma : List Char} (hkey : TakesBefore ['"'] (hasKey first) comma true)
    {n : Nat} {seen : List String} (hnew : f.key ∉ seen) {record : α} {ahead more : List Char}
    {result : List String × α}
    (hrest : TakesBefore ahead (objectMembers members n false (f.key :: seen) (f.put record)) more
      result) :
    TakesBefore ahead (objectMembers members (n + 1) first seen record)
      (comma ++ (f.toText ++ more)) result := by
  obtain ⟨m, hm, hread⟩ := hf
  have hvalue := takes_colon.bind (k := fun _ => m.read record >>= fun record =>
    objectMembers members n false (f.key :: seen) record) ((hread record).bind hrest)
  rw [Filling.toText, toList_stringText]
  -- `hasKey` looks ahead at the quote of the key and leaves it there.
  have htext : '"' :: (f.key.toList.flatMap escapeChar ++ ['"']) ++
      ':' :: f.value.compact.toList ++ more =
        ['"'] ++ ((f.key.toList.flatMap escapeChar ++ ['"']) ++
          ([':'] ++ (f.value.compact.toList ++ more))) := by simp
  rw [htext]
  refine hkey.bind ((takes_eat '"').bind ((takes_string f.key).bind ?_))
  have hnew' : seen.contains f.key = false := by simpa using hnew
  simp only [hm, hnew']
  exact hvalue

/-- The fields of an object behind its first. -/
theorem takesBefore_objectMembers {members : List (Member α)} (fields : List (Filling α))
    (hfits : ∀ f ∈ fields, f.Fits members) (n : Nat) (hn : fields.length < n) (seen : List String)
    (hnew : ((fields.map (·.key)).reverse ++ seen).Nodup) (record : α) :
    TakesBefore ['\x7d'] (objectMembers members n false seen record)
      (fields.flatMap fun f => ',' :: f.toText)
      ((fields.map (·.key)).reverse ++ seen, Filling.fill record fields) := by
  induction fields generalizing n seen record with
  | nil =>
    cases n with
    | zero => cases hn
    | succ n => exact (takesBefore_hasKey_end false).bind_nil (takesBefore_pure _ _)
  | cons f fields ih =>
    cases n with
    | zero => cases hn
    | succ n =>
      rw [List.map_cons, List.reverse_cons, List.append_assoc, List.singleton_append] at hnew ⊢
      obtain ⟨hf, hfields⟩ := List.forall_mem_cons.1 hfits
      have hseen : f.key ∉ seen := (List.nodup_cons.1 (List.nodup_append.1 hnew).2.1).1
      have hrest := ih hfields n (Nat.lt_of_succ_lt_succ hn) (f.key :: seen) hnew (f.put record)
      have hfield := takesBefore_member hf takesBefore_hasKey_more hseen hrest
      rw [List.singleton_append, ← List.cons_append] at hfield
      rw [List.flatMap_cons]
      exact hfield

/-- The fields of an object, before its closing bracket. -/
theorem takesBefore_objectMembers_first {members : List (Member α)} (fields : List (Filling α))
    (hfits : ∀ f ∈ fields, f.Fits members) (hnodup : (fields.map (·.key)).Nodup) (n : Nat)
    (hn : (commas (fields.map fun f => String.ofList f.toText)).toList.length < n) (record : α) :
    TakesBefore ['\x7d'] (objectMembers members n true [] record)
      (commas (fields.map fun f => String.ofList f.toText)).toList
      ((fields.map (·.key)).reverse, Filling.fill record fields) := by
  cases n with
  | zero => cases hn
  | succ n =>
    cases fields with
    | nil => exact (takesBefore_hasKey_end true).bind_nil (takesBefore_pure _ _)
    | cons f fields =>
      obtain ⟨hf, hfields⟩ := List.forall_mem_cons.1 hfits
      rw [List.map_cons, toList_commas_cons, List.flatMap_map, String.toList_ofList] at hn ⊢
      simp only [String.toList_ofList] at hn ⊢
      have hcount : fields.length < n := by
        have hlength := length_le_length_flatMap
          (f := fun f : Filling α => ',' :: f.toText) (by simp) fields
        rw [List.length_append, Filling.toText, toList_stringText, List.length_append,
          List.length_cons] at hn
        omega
      have hnew : ((fields.map (·.key)).reverse ++ [f.key]).Nodup := by
        rw [← List.reverse_cons, List.nodup_reverse]
        exact hnodup
      have hrest := takesBefore_objectMembers fields hfields n hcount [f.key] hnew (f.put record)
      have hfield := takesBefore_member hf takesBefore_hasKey_first List.not_mem_nil hrest
      rw [List.map_cons, List.reverse_cons]
      rw [List.nil_append] at hfield
      exact hfield

/-- No field is missing. -/
theorem takesBefore_requireMembers (ahead : List Char) (seen : List String)
    (members : List (Member α)) (h : ∀ m ∈ members, m.optional = true ∨ m.name ∈ seen) :
    TakesBefore ahead (requireMembers seen members) [] () := by
  induction members with
  | nil => exact takesBefore_pure ahead ()
  | cons m members ih =>
    obtain ⟨hm, hmembers⟩ := List.forall_mem_cons.1 h
    rw [requireMembers, if_pos (by simpa using hm)]
    exact ih hmembers

/-- **A record** as an object: the fields that are given are read in their
order, if they are distinct and none is missing. -/
theorem takes_readRecord (shape : RecordShape α) (fields : List (Filling α))
    (hfits : ∀ f ∈ fields, f.Fits shape.members) (hnodup : (fields.map (·.key)).Nodup)
    (hrequired : ∀ m ∈ shape.members, m.optional = true ∨ m.name ∈ fields.map (·.key)) :
    Takes (readRecord shape) (Filling.object fields).compact.toList
      (Filling.fill shape.blank fields) := by
  rw [Filling.toList_compact_object]
  refine TakesBefore.located (takes_peekWord (c := '\x7b') (by decide) ?_)
  refine (takes_eat '\x7b').bind (TakesBefore.closing (t := ['\x7d']) ?_ ?_)
  · refine TakesBefore.of_count (r := fun n => do
      let read ← objectMembers shape.members n true [] shape.blank
      requireMembers read.1 shape.members
      return read.2) fun n hn => ?_
    have hmembers := takesBefore_objectMembers_first fields hfits hnodup n hn shape.blank
    refine hmembers.bind_nil ?_
    have hrequire := takesBefore_requireMembers ['\x7d'] (fields.map (·.key)).reverse shape.members
      (by simpa using hrequired)
    exact hrequire.bind_nil (takesBefore_pure _ _)
  · exact takes_peekWord (c := '\x7d') (by decide) (takes_eat '\x7d')

/-! ## Choices -/

section Choices

variable {choices : List (String × α)} {name : String} {a : α}

theorem takes_choiceName (h : choices.lookup name = some a) :
    Takes (choiceName choices) (stringText name).toList a := by
  refine TakesBefore.located (TakesBefore.bind_nil (takes_stringAs _ name) ?_)
  rw [h]
  exact takesBefore_pure [] a

/-- A choice without fields. -/
theorem takes_nameOf (h : choices.lookup name = some a) :
    Takes (nameOf choices) (text name).compact.toList a := by
  have hname := TakesBefore.bind_nil (takes_choiceName h)
    (k := fun a => (return a : Read α)) (takesBefore_pure [] a)
  rw [compact]
  rw [toList_stringText] at hname ⊢
  exact takes_peekWord (c := '"') (by decide) hname

/-- A choice with fields. -/
theorem takes_choice {bare keyed : α → Read β} {value : Json} {b : β}
    (h : choices.lookup name = some a) (hkeyed : Takes (keyed a) value.compact.toList b) :
    Takes (choice choices bare keyed) (object [(name, value)]).compact.toList b := by
  have htext : (object [(name, value)]).compact.toList =
      '\x7b' :: ((stringText name).toList ++ ([':'] ++ (value.compact.toList ++ ['\x7d']))) := by
    simp [compact, compactFields, commas]
  rw [htext]
  refine takes_peekWord (c := '\x7b') (by decide) ?_
  rw [← List.singleton_append]
  refine (takes_eat '\x7b').bind ?_
  refine (takes_choiceName h).bind (takes_colon.bind (hkeyed.bind ?_))
  exact takes_peekWord (c := '\x7d') (by decide) ((takes_eat '\x7d').bind_pure fun _ => b)

end Choices

/-- **A whole text.** -/
theorem readAll_of_takes {r : Read α} {s : String} {a : α} (h : Takes r s.toList a) :
    readAll r s = .ok a := by
  obtain ⟨place, hr⟩ := h [] ⟨1, 0⟩
  rw [List.append_nil, List.append_nil] at hr
  unfold readAll
  simp only [bind, EStateM.bind, Cursor.start, hr]
  rfl

end Json

end ProcessCompiler
