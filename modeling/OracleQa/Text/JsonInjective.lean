import OracleQa.Text.Json
import OracleQa.Text.Encoding

/-! The compact text of a JSON value determines the value: each part of it can be cut off the front
of a longer text in one way only. -/

namespace OracleQa.Text

/-- Where a text begins with that of `a`, it begins so with the text of nothing else. -/
def CutsAt {α : Type} (f : α → List Char) (P : α → Prop) (follow : List Char → Prop) (a : α) :
    Prop :=
  ∀ b rest rest', P b → follow rest → follow rest' → f a ++ rest = f b ++ rest' →
    a = b ∧ rest = rest'

/-! ## Separated lists -/

def joined {α : Type} (f : α → List Char) : List α → List Char
  | [] => []
  | [a] => f a
  | a :: as => f a ++ ',' :: joined f as

def more {α : Type} (f : α → List Char) (close : Char) (rest : List Char) : List α → List Char
  | [] => close :: rest
  | a :: as => ',' :: (joined f (a :: as) ++ close :: rest)

theorem joined_cons {α : Type} (f : α → List Char) (close : Char) (rest : List Char) (a : α)
    (as : List α) : joined f (a :: as) ++ close :: rest = f a ++ more f close rest as := by
  cases as with
  | nil => rfl
  | cons b as =>
    show (f a ++ ',' :: joined f (b :: as)) ++ close :: rest = _
    rw [List.append_assoc]
    rfl

section
variable {α : Type} {f : α → List Char} {P : α → Prop} {follow : List Char → Prop} {close : Char}

theorem joined_cuts (hcomma : ∀ cs, follow (',' :: cs)) (hclose : ∀ cs, follow (close :: cs))
    (hne : close ≠ ',') (hhead : ∀ a rest rest', P a → f a ++ rest ≠ close :: rest')
    {as bs : List α} {rest rest' : List Char} (has : ∀ a ∈ as, P a ∧ CutsAt f P follow a)
    (hbs : ∀ b ∈ bs, P b) (h : joined f as ++ close :: rest = joined f bs ++ close :: rest') :
    as = bs ∧ rest = rest' := by
  have hmore : ∀ cs rest, follow (more f close rest cs) := by
    intro cs rest
    cases cs with
    | nil => exact hclose rest
    | cons c cs => exact hcomma _
  induction as generalizing bs with
  | nil =>
    cases bs with
    | nil => exact ⟨rfl, (List.cons.inj h).2⟩
    | cons b bs =>
      rw [joined_cons] at h
      exact absurd h.symm (hhead b _ _ (hbs b List.mem_cons_self))
  | cons a as ih =>
    obtain ⟨ha, hcut⟩ := has a List.mem_cons_self
    cases bs with
    | nil =>
      rw [joined_cons] at h
      exact absurd h (hhead a _ _ ha)
    | cons b bs =>
      rw [joined_cons, joined_cons] at h
      obtain ⟨rfl, hrest⟩ := hcut b _ _ (hbs b List.mem_cons_self) (hmore _ _) (hmore _ _) h
      have htail : joined f as ++ close :: rest = joined f bs ++ close :: rest' := by
        cases as with
        | nil =>
          cases bs with
          | nil => exact hrest
          | cons b bs => exact absurd (List.cons.inj hrest).1 hne
        | cons a as =>
          cases bs with
          | nil => exact absurd (List.cons.inj hrest).1.symm hne
          | cons b bs => exact (List.cons.inj hrest).2
      obtain ⟨rfl, hrest'⟩ := ih (fun c hc => has c (List.mem_cons_of_mem _ hc))
        (fun c hc => hbs c (List.mem_cons_of_mem _ hc)) htail
      exact ⟨rfl, hrest'⟩

end

theorem digits_cut {ds ds' rest rest' : List Char} (hds : ∀ c ∈ ds, c.isDigit = true)
    (hds' : ∀ c ∈ ds', c.isDigit = true) (hrest : ∀ c cs, rest = c :: cs → c.isDigit = false)
    (hrest' : ∀ c cs, rest' = c :: cs → c.isDigit = false) (h : ds ++ rest = ds' ++ rest') :
    ds = ds' ∧ rest = rest' := by
  induction ds generalizing ds' with
  | nil =>
    cases ds' with
    | nil => exact ⟨rfl, h⟩
    | cons d ds' =>
      have hdigit := hds' d List.mem_cons_self
      rw [hrest d _ h] at hdigit
      cases hdigit
  | cons d ds ih =>
    cases ds' with
    | nil =>
      have hdigit := hds d List.mem_cons_self
      rw [hrest' d _ h.symm] at hdigit
      cases hdigit
    | cons d' ds' =>
      obtain ⟨rfl, htail⟩ := List.cons.inj h
      obtain ⟨rfl, hrests⟩ := ih (fun c hc => hds c (List.mem_cons_of_mem _ hc))
        (fun c hc => hds' c (List.mem_cons_of_mem _ hc)) htail
      exact ⟨rfl, hrests⟩

theorem isDigit_repr (n : Nat) : ∀ c ∈ n.repr.toList, c.isDigit = true := by
  intro c hc
  rw [Nat.toList_repr] at hc
  exact Nat.isDigit_of_mem_toDigits (by decide) (by decide) hc

theorem repr_toList_injective {m n : Nat} (h : m.repr.toList = n.repr.toList) : m = n := by
  rw [Nat.toList_repr, Nat.toList_repr] at h
  have hvalue := congrArg (Nat.ofDigitChars 10 · 0) h
  simpa only [Nat.ofDigitChars_toDigits (b := 10) (by decide) (by decide)] using hvalue

namespace Json

/-! ## Strings -/

def hexValue (c : Char) : Nat := if c.toNat < 58 then c.toNat - 48 else c.toNat - 87

def unescape : List Char → Option (Char × List Char)
  | [] => none
  | '\\' :: 'b' :: cs => some (Char.ofNat 8, cs)
  | '\\' :: 't' :: cs => some (Char.ofNat 9, cs)
  | '\\' :: 'n' :: cs => some (Char.ofNat 10, cs)
  | '\\' :: 'f' :: cs => some (Char.ofNat 12, cs)
  | '\\' :: 'r' :: cs => some (Char.ofNat 13, cs)
  | '\\' :: 'u' :: '0' :: '0' :: hi :: lo :: cs =>
    some (Char.ofNat (16 * hexValue hi + hexValue lo), cs)
  | '\\' :: c :: cs => some (c, cs)
  | c :: cs => some (c, cs)

theorem hexValue_digitChar : ∀ d < 16, hexValue (Nat.digitChar d) = d := by decide

theorem eq_ofNat {c : Char} {n : Nat} (h : c.toNat = n) : c = Char.ofNat n := by
  rw [← h, Char.ofNat_toNat]

theorem unescape_escapeChar (c : Char) (cs : List Char) :
    unescape (escapeChar c ++ cs) = some (c, cs) := by
  unfold escapeChar
  split
  · next h => rw [h]; rfl
  split
  · next h => rw [h]; rfl
  split
  · next h => rw [eq_ofNat h]; rfl
  split
  · next h => rw [eq_ofNat h]; rfl
  split
  · next h => rw [eq_ofNat h]; rfl
  split
  · next h => rw [eq_ofNat h]; rfl
  split
  · next h => rw [eq_ofNat h]; rfl
  split
  · next h =>
    have hhigh := hexValue_digitChar (c.toNat / 16) (by omega)
    have hlow := hexValue_digitChar (c.toNat % 16) (by omega)
    have hvalue : 16 * (c.toNat / 16) + c.toNat % 16 = c.toNat := by omega
    show some (Char.ofNat (16 * hexValue _ + hexValue _), cs) = some (c, cs)
    rw [hhigh, hlow, hvalue, Char.ofNat_toNat]
  · next hslash _ _ _ _ _ _ =>
    rw [List.singleton_append, unescape.eq_def]
    split <;> simp_all

theorem escapeChar_ne_quote (c : Char) (cs rest : List Char) :
    escapeChar c ++ cs ≠ '"' :: rest := by
  intro h
  have hunescape := unescape_escapeChar c cs
  rw [h] at hunescape
  obtain ⟨rfl, rfl⟩ := Prod.mk.inj (Option.some.inj hunescape)
  cases h

theorem escaped_cut {cs ds rest rest' : List Char}
    (h : cs.flatMap escapeChar ++ '"' :: rest = ds.flatMap escapeChar ++ '"' :: rest') :
    cs = ds ∧ rest = rest' := by
  induction cs generalizing ds with
  | nil =>
    cases ds with
    | nil => exact ⟨rfl, (List.cons.inj h).2⟩
    | cons d ds =>
      rw [List.flatMap_cons, List.append_assoc] at h
      exact absurd h.symm (escapeChar_ne_quote d _ _)
  | cons c cs ih =>
    cases ds with
    | nil =>
      rw [List.flatMap_cons, List.append_assoc] at h
      exact absurd h (escapeChar_ne_quote c _ _)
    | cons d ds =>
      rw [List.flatMap_cons, List.flatMap_cons, List.append_assoc, List.append_assoc] at h
      have hunescape := congrArg unescape h
      rw [unescape_escapeChar, unescape_escapeChar] at hunescape
      obtain ⟨rfl, htail⟩ := Prod.mk.inj (Option.some.inj hunescape)
      obtain ⟨rfl, hrest⟩ := ih htail
      exact ⟨rfl, hrest⟩

theorem quoted_cut {s t : String} {rest rest' : List Char}
    (h : quoted s ++ rest = quoted t ++ rest') : s = t ∧ rest = rest' := by
  have hinside : s.toList.flatMap escapeChar ++ '"' :: rest =
      t.toList.flatMap escapeChar ++ '"' :: rest' := by
    simpa [quoted] using h
  obtain ⟨hchars, hrest⟩ := escaped_cut hinside
  exact ⟨String.toList_injective hchars, hrest⟩

/-! ## Values -/

/-- No floats, and negative integers that are negative. -/
inductive Plain : Json → Prop
  | null : Plain .null
  | bool (b : Bool) : Plain (.bool b)
  | posInt (n : UInt64) : Plain (.number (.posInt n))
  | negInt {n : Int} (h : n < 0) : Plain (.number (.negInt n))
  | string (s : String) : Plain (.string s)
  | array {items : List Json} (h : ∀ j ∈ items, Plain j) : Plain (.array items)
  | object {members : List (String × Json)} (h : ∀ m ∈ members, Plain m.2) : Plain (.object members)

def Delimited (cs : List Char) : Prop := ∀ c rest, cs = c :: rest → c = ',' ∨ c = ']' ∨ c = '\x7d'

theorem Delimited.cons {c : Char} (h : c = ',' ∨ c = ']' ∨ c = '\x7d') (cs : List Char) :
    Delimited (c :: cs) := by
  intro c' rest heq
  obtain ⟨rfl, -⟩ := List.cons.inj heq
  exact h

theorem Delimited.not_digit {cs : List Char} (h : Delimited cs) :
    ∀ c rest, cs = c :: rest → c.isDigit = false := by
  intro c rest heq
  rcases h c rest heq with rfl | rfl | rfl <;> rfl

inductive Kind
  | null | bool (b : Bool) | digits | minus | string | array | object | other
  deriving DecidableEq

def kindOf (c : Char) : Kind :=
  if c.isDigit then .digits
  else if c = 'n' then .null
  else if c = 't' then .bool true
  else if c = 'f' then .bool false
  else if c = '-' then .minus
  else if c = '"' then .string
  else if c = '[' then .array
  else if c = '\x7b' then .object
  else .other

def kind : Json → Kind
  | .null => .null
  | .bool b => .bool b
  | .number (.posInt _) => .digits
  | .number (.negInt _) => .minus
  | .number (.float _) => .other
  | .string _ => .string
  | .array _ => .array
  | .object _ => .object

section
variable {floatText : UInt64 → String} {a b : Json} {rest rest' : List Char}

theorem negInt_text {n : Int} (h : n < 0) :
    numberText floatText (.negInt n) = '-' :: (-n).toNat.repr.toList := by
  obtain ⟨m, rfl⟩ := Int.eq_negSucc_of_lt_zero h
  show ("-" ++ (m + 1).repr).toList = _
  rw [String.toList_append]
  rfl

theorem text_head (floatText : UInt64 → String) (ha : Plain a) :
    ∃ c cs, text floatText a = c :: cs ∧ kindOf c = a.kind := by
  cases ha with
  | posInt n =>
    show ∃ c cs, n.toNat.repr.toList = c :: cs ∧ kindOf c = .digits
    cases hds : n.toNat.repr.toList with
    | nil =>
      rw [Nat.toList_repr] at hds
      exact absurd hds Nat.toDigits_ne_nil
    | cons c cs =>
      refine ⟨c, cs, rfl, ?_⟩
      rw [kindOf, if_pos (isDigit_repr _ c (hds ▸ List.mem_cons_self))]
  | @negInt n h =>
    have htext : numberText floatText (.negInt n) = _ := negInt_text h
    exact ⟨_, _, htext, rfl⟩
  | bool b => cases b <;> exact ⟨_, _, rfl, rfl⟩
  | _ => exact ⟨_, _, rfl, rfl⟩

theorem kind_eq (ha : Plain a) (hb : Plain b)
    (h : text floatText a ++ rest = text floatText b ++ rest') : a.kind = b.kind := by
  obtain ⟨c, cs, htext, hkind⟩ := text_head floatText ha
  obtain ⟨c', cs', htext', hkind'⟩ := text_head floatText hb
  rw [htext, htext'] at h
  obtain ⟨rfl, -⟩ := List.cons.inj h
  rw [← hkind, hkind']

theorem text_ne_close (ha : Plain a) {c : Char} (hc : kindOf c = .other) :
    text floatText a ++ rest ≠ c :: rest' := by
  obtain ⟨c', cs, htext, hkind⟩ := text_head floatText ha
  rw [htext]
  intro h
  obtain ⟨rfl, -⟩ := List.cons.inj h
  rw [hc] at hkind
  cases ha <;> cases hkind

def memberText (floatText : UInt64 → String) (m : String × Json) : List Char :=
  quoted m.1 ++ ':' :: text floatText m.2

theorem itemsText_eq (items : List Json) :
    itemsText floatText items = joined (text floatText) items := by
  induction items with
  | nil => rfl
  | cons j js ih =>
    cases js with
    | nil => rfl
    | cons k ks =>
      show text floatText j ++ ',' :: itemsText floatText (k :: ks) = _
      rw [ih]
      rfl

theorem membersText_eq (members : List (String × Json)) :
    membersText floatText members = joined (memberText floatText) members := by
  induction members with
  | nil => rfl
  | cons m ms ih =>
    cases ms with
    | nil => rfl
    | cons k ks =>
      show quoted m.1 ++ ':' :: (text floatText m.2 ++ ',' :: membersText floatText (k :: ks)) = _
      rw [ih]
      show _ = (quoted m.1 ++ ':' :: text floatText m.2) ++ ',' :: joined _ (k :: ks)
      rw [List.append_assoc]
      rfl

theorem literal_cut {cs : List Char} (h : cs ++ rest = cs ++ rest') : rest = rest' :=
  List.append_cancel_left h

/-- The text of a value can be cut off in one way only. -/
theorem text_cuts (ha : Plain a) : CutsAt (text floatText) Plain Delimited a := by
  induction ha with
  | null =>
    intro b rest rest' hb _ _ h
    have hkind := kind_eq .null hb h
    cases hb <;> first | cases hkind; done | exact ⟨rfl, literal_cut h⟩
  | bool v =>
    intro b rest rest' hb _ _ h
    have hkind := kind_eq (.bool v) hb h
    cases hb with
    | bool v' =>
      obtain rfl := Kind.bool.inj hkind
      exact ⟨rfl, literal_cut h⟩
    | _ => cases hkind
  | posInt n =>
    intro b rest rest' hb hrest hrest' h
    have hkind := kind_eq (.posInt n) hb h
    cases hb with
    | posInt n' =>
      obtain ⟨hdigits, hrests⟩ := digits_cut (isDigit_repr _) (isDigit_repr _) hrest.not_digit
        hrest'.not_digit h
      obtain rfl := UInt64.toNat_inj.mp (repr_toList_injective hdigits)
      exact ⟨rfl, hrests⟩
    | _ => cases hkind
  | @negInt n hn =>
    intro b rest rest' hb hrest hrest' h
    have hkind := kind_eq (.negInt hn) hb h
    cases hb with
    | @negInt n' hn' =>
      rw [text, text, negInt_text hn, negInt_text hn'] at h
      obtain ⟨hdigits, hrests⟩ := digits_cut (isDigit_repr _) (isDigit_repr _) hrest.not_digit
        hrest'.not_digit (List.cons.inj h).2
      have habs := repr_toList_injective hdigits
      obtain rfl : n = n' := by omega
      exact ⟨rfl, hrests⟩
    | _ => cases hkind
  | string s =>
    intro b rest rest' hb _ _ h
    have hkind := kind_eq (.string s) hb h
    cases hb with
    | string s' =>
      obtain ⟨rfl, hrests⟩ := quoted_cut h
      exact ⟨rfl, hrests⟩
    | _ => cases hkind
  | @array items hitems ih =>
    intro b rest rest' hb _ _ h
    have hkind := kind_eq (.array hitems) hb h
    cases hb with
    | @array items' hitems' =>
      have hinside : joined (text floatText) items ++ ']' :: rest =
          joined (text floatText) items' ++ ']' :: rest' := by
        rw [← itemsText_eq, ← itemsText_eq]
        simpa [text] using h
      obtain ⟨rfl, hrests⟩ := joined_cuts (P := Plain) (.cons (Or.inl rfl))
        (.cons (Or.inr (Or.inl rfl))) (by decide) (fun j _ _ hj => text_ne_close hj rfl)
        (fun j hj => ⟨hitems j hj, ih j hj⟩) hitems' hinside
      exact ⟨rfl, hrests⟩
    | _ => cases hkind
  | @object members hmembers ih =>
    intro b rest rest' hb _ _ h
    have hkind := kind_eq (.object hmembers) hb h
    cases hb with
    | @object members' hmembers' =>
      have hinside : joined (memberText floatText) members ++ '\x7d' :: rest =
          joined (memberText floatText) members' ++ '\x7d' :: rest' := by
        rw [← membersText_eq, ← membersText_eq]
        simpa [text] using h
      have hcut : ∀ m ∈ members,
          CutsAt (memberText floatText) (fun m => Plain m.2) Delimited m := by
        intro m hm m' r r' hm' hr hr' hmm
        rw [memberText, memberText, List.append_assoc, List.append_assoc] at hmm
        obtain ⟨hkey, hvalue⟩ := quoted_cut hmm
        obtain ⟨hval, hrr⟩ := ih m hm _ _ _ hm' hr hr' (List.cons.inj hvalue).2
        exact ⟨Prod.ext hkey hval, hrr⟩
      obtain ⟨rfl, hrests⟩ := joined_cuts (P := fun m : String × Json => Plain m.2)
        (.cons (Or.inl rfl)) (.cons (Or.inr (Or.inr rfl))) (by decide)
        (fun m _ _ _ hm => by cases hm) (fun m hm => ⟨hmembers m hm, hcut m hm⟩) hmembers' hinside
      exact ⟨rfl, hrests⟩
    | _ => cases hkind

theorem text_injective (ha : Plain a) (hb : Plain b)
    (h : text floatText a = text floatText b) : a = b := by
  have hend : Delimited [] := fun c rest h => by cases h
  have hcut : CutsAt (text floatText) Plain Delimited a := text_cuts ha
  refine (hcut b [] [] hb hend hend ?_).1
  rw [List.append_nil, List.append_nil]
  exact h

end
end Json
end OracleQa.Text
