import PriceOracle.Lib.Texts

/-! # Writing lists and scalars as JSON

The text of a value is closed in itself: what follows it in a longer text cannot be taken for a part
of it. So the text determines the value. -/

namespace PriceOracle.Lib.JsonDump

inductive Value
  | null
  | bool (value : Bool)
  | int (value : Int)
  | str (value : String)
  | list (items : List Value)

/-- A character in a string. Quotes, backslashes and control characters are escaped. -/
def escaped (c : Char) : List Char :=
  if c = '"' then ['\\', '"']
  else if c = '\\' then ['\\', '\\']
  else if c = '\n' then ['\\', 'n']
  else if c = '\r' then ['\\', 'r']
  else if c = '\t' then ['\\', 't']
  else if c.toNat = 8 then ['\\', 'b']
  else if c.toNat = 12 then ['\\', 'f']
  else if c.toNat < 0x20 then
    ['\\', 'u', '0', '0', Nat.digitChar (c.toNat / 16), Nat.digitChar (c.toNat % 16)]
  else [c]

/-- The characters of a string up to its closing quote, and what follows. -/
def quoted (cs rest : List Char) : List Char := cs.flatMap escaped ++ '"' :: rest

def decimal (n : Int) : List Char :=
  if n < 0 then '-' :: Nat.toDigits 10 n.natAbs else Nat.toDigits 10 n.natAbs

mutual

/-- The text of a value, without spaces, and what follows. -/
def dump : Value → List Char → List Char
  | .null, rest => 'n' :: 'u' :: 'l' :: 'l' :: rest
  | .bool true, rest => 't' :: 'r' :: 'u' :: 'e' :: rest
  | .bool false, rest => 'f' :: 'a' :: 'l' :: 's' :: 'e' :: rest
  | .int n, rest => decimal n ++ rest
  | .str text, rest => '"' :: quoted text.toList rest
  | .list [], rest => '[' :: ']' :: rest
  | .list (item :: items), rest => '[' :: dump item (dumpItems items rest)
termination_by structural value => value

/-- The items after the first one. -/
def dumpItems : List Value → List Char → List Char
  | [], rest => ']' :: rest
  | item :: items, rest => ',' :: dump item (dumpItems items rest)
termination_by structural items => items

end

def dumps (value : Value) : String := String.ofList (dump value [])

section Strings

open JsonText

def readChar : List Char → Option (Char × List Char)
  | [] => none
  | c :: rest => if c = '\\' then escape rest else some (c, rest)

theorem hexValue_digitChar : ∀ n < 16, hexValue (Nat.digitChar n) = some n := by decide

theorem unicodeEscape_of_lt {cs rest : List Char} {unit : Nat}
    (h : hexFour cs = some (unit,rest)) (hunit : unit < 0xD800) :
    unicodeEscape cs = some (Char.ofNat unit,rest) := by
  simp only [unicodeEscape,h,bind,Option.bind]
  rw [if_neg (by omega),if_neg (by omega)]

/-- An escape is read back, whatever follows. -/
theorem readChar_escaped (c : Char) (rest : List Char) :
    readChar (escaped c ++ rest) = some (c,rest) := by
  unfold escaped
  split_ifs with hquote hslash hnewline hreturn htab hback hfeed hcontrol
  · rw [hquote]
    rfl
  · rw [hslash]
    rfl
  · rw [hnewline]
    rfl
  · rw [hreturn]
    rfl
  · rw [htab]
    rfl
  · rw [← Char.ofNat_toNat c,hback]
    rfl
  · rw [← Char.ofNat_toNat c,hfeed]
    rfl
  · have hhigh := hexValue_digitChar (c.toNat / 16) (by omega)
    have hlow := hexValue_digitChar (c.toNat % 16) (by omega)
    have hfour : hexFour ('0' :: '0' :: Nat.digitChar (c.toNat / 16) ::
        Nat.digitChar (c.toNat % 16) :: rest) = some (c.toNat,rest) := by
      simp only [hexFour,hhigh,hlow,show hexValue '0' = some 0 from rfl,bind,Option.bind]
      congr 2
      omega
    exact (unicodeEscape_of_lt hfour (by omega)).trans (by rw [Char.ofNat_toNat])
  · simp [readChar,hslash]

theorem escaped_append_inj {a b : Char} {r s : List Char}
    (h : escaped a ++ r = escaped b ++ s) : a = b ∧ r = s := by
  have hread := readChar_escaped a r
  rw [h,readChar_escaped,Option.some_inj,Prod.mk.injEq] at hread
  exact ⟨hread.1.symm,hread.2.symm⟩

theorem escaped_ne_quote (c : Char) (r s : List Char) : escaped c ++ r ≠ '"' :: s := by
  unfold escaped
  split_ifs <;> simp_all

theorem quoted_inj {cs ds r s : List Char} (h : quoted cs r = quoted ds s) : cs = ds ∧ r = s := by
  unfold quoted at h
  induction cs generalizing ds with
  | nil =>
    cases ds with
    | nil => simpa using h
    | cons d ds =>
      rw [List.flatMap_cons,List.append_assoc] at h
      exact absurd h.symm (escaped_ne_quote d _ _)
  | cons c cs ih =>
    rw [List.flatMap_cons,List.append_assoc] at h
    cases ds with
    | nil => exact absurd h (escaped_ne_quote c _ _)
    | cons d ds =>
      rw [List.flatMap_cons,List.append_assoc] at h
      obtain ⟨rfl,hrest⟩ := escaped_append_inj h
      obtain ⟨rfl,rfl⟩ := ih hrest
      exact ⟨rfl,rfl⟩

end Strings

/-- What may follow a number: nothing that could be a digit of it. -/
def Closed (rest : List Char) : Prop := ∀ c ∈ rest.head?, c.isDigit = false

theorem toDigits_isDigit {n : Nat} {c : Char} (h : c ∈ Nat.toDigits 10 n) : c.isDigit = true :=
  Nat.isDigit_of_mem_toDigits (by decide) (by decide) h

theorem toDigits_append_inj {m n : Nat} {r s : List Char} (hr : Closed r) (hs : Closed s)
    (h : Nat.toDigits 10 m ++ r = Nat.toDigits 10 n ++ s) : m = n ∧ r = s := by
  have hspan : ∀ (k : Nat) (rest : List Char), Closed rest →
      (Nat.toDigits 10 k ++ rest).takeWhile Char.isDigit = Nat.toDigits 10 k := by
    intro k rest hrest
    rw [List.takeWhile_append_of_pos fun c hc => toDigits_isDigit hc]
    cases rest with
    | nil => exact List.append_nil _
    | cons c rest => rw [List.takeWhile_cons_of_neg (by simp [hrest c rfl]),List.append_nil]
  have hdigits : Nat.toDigits 10 m = Nat.toDigits 10 n := by
    rw [← hspan m r hr,h,hspan n s hs]
  have hvalue : m = n := by
    rw [← Nat.ofDigitChars_toDigits (by decide : 1 < 10) (by decide) (n := m),hdigits,
      Nat.ofDigitChars_toDigits (by decide) (by decide)]
  rw [hdigits] at h
  exact ⟨hvalue,List.append_cancel_left h⟩

theorem decimal_head (n : Int) :
    ∃ c rest, decimal n = c :: rest ∧ (c = '-' ∨ c.isDigit = true) := by
  have hdigits : ∀ k : Nat, ∃ c rest, Nat.toDigits 10 k = c :: rest ∧ c.isDigit = true := by
    intro k
    cases hk : Nat.toDigits 10 k with
    | nil => exact absurd hk Nat.toDigits_ne_nil
    | cons c rest => exact ⟨c,rest,rfl,toDigits_isDigit (hk ▸ List.mem_cons_self)⟩
  unfold decimal
  split_ifs
  · exact ⟨_,_,rfl,.inl rfl⟩
  · obtain ⟨c,rest,hc,hdigit⟩ := hdigits n.natAbs
    exact ⟨c,rest,hc,.inr hdigit⟩

theorem decimal_append_inj {m n : Int} {r s : List Char} (hr : Closed r) (hs : Closed s)
    (h : decimal m ++ r = decimal n ++ s) : m = n ∧ r = s := by
  have hsign : ∀ (k : Nat) (t u : List Char), Nat.toDigits 10 k ++ t ≠ '-' :: u := by
    intro k t u heq
    cases hk : Nat.toDigits 10 k with
    | nil => exact Nat.toDigits_ne_nil hk
    | cons c rest =>
      have hdigit : c.isDigit = true := toDigits_isDigit (hk ▸ List.mem_cons_self)
      rw [hk,List.cons_append,List.cons.injEq] at heq
      rw [heq.1] at hdigit
      exact absurd hdigit (by decide)
  unfold decimal at h
  split_ifs at h with hm hn hn
  · obtain ⟨habs,hrest⟩ := toDigits_append_inj hr hs (List.cons.inj h).2
    exact ⟨by omega,hrest⟩
  · exact absurd h.symm (hsign _ _ _)
  · exact absurd h (hsign _ _ _)
  · obtain ⟨habs,hrest⟩ := toDigits_append_inj hr hs h
    exact ⟨by omega,hrest⟩

/-- The text of a number begins with nothing else. -/
theorem decimal_append_ne {c : Char} (hsign : c ≠ '-') (hdigit : c.isDigit = false) (n : Int)
    (r s : List Char) : decimal n ++ r ≠ c :: s := by
  intro h
  obtain ⟨d,rest,hd,hhead⟩ := decimal_head n
  rw [hd,List.cons_append,List.cons.injEq] at h
  rw [h.1] at hhead
  rcases hhead with hhead | hhead
  · exact hsign hhead
  · rw [hdigit] at hhead
    cases hhead

theorem closed_dumpItems (items : List Value) (rest : List Char) :
    Closed (dumpItems items rest) := by
  cases items with
  | nil =>
    rintro c hc
    obtain rfl := Option.some.inj hc
    rfl
  | cons item items =>
    rintro c hc
    obtain rfl := Option.some.inj hc
    rfl

/-- No other value begins like a number. -/
theorem decimal_append_ne_dump {w : Value} (hw : ∀ n, w ≠ .int n) (m : Int) (r s : List Char) :
    decimal m ++ r ≠ dump w s := by
  cases w with
  | null => exact decimal_append_ne (by decide) (by decide) m r _
  | bool b =>
    cases b with
    | false => exact decimal_append_ne (by decide) (by decide) m r _
    | true => exact decimal_append_ne (by decide) (by decide) m r _
  | int n => exact absurd rfl (hw n)
  | str text => exact decimal_append_ne (by decide) (by decide) m r _
  | list items =>
    cases items with
    | nil => exact decimal_append_ne (by decide) (by decide) m r _
    | cons => exact decimal_append_ne (by decide) (by decide) m r _

theorem dump_ne_bracket (w : Value) (r s : List Char) : dump w r ≠ ']' :: s := by
  cases w with
  | null => simp [dump]
  | bool b => cases b <;> simp [dump]
  | int n => exact decimal_append_ne (by decide) (by decide) n r s
  | str text => simp [dump]
  | list items => cases items <;> simp [dump]

mutual

/-- The text of a value is closed in itself. -/
theorem dump_inj : ∀ (v w : Value) (r s : List Char), Closed r → Closed s →
    dump v r = dump w s → v = w ∧ r = s
  | .null, w, r, s, _, _, h => by
    cases w with
    | null => simpa [dump] using h
    | bool b => cases b <;> simp [dump] at h
    | int n => exact (decimal_append_ne_dump (by simp) n s r h.symm).elim
    | str text => simp [dump] at h
    | list items => cases items <;> simp [dump] at h
  | .bool a, w, r, s, _, _, h => by
    cases w with
    | null => cases a <;> simp [dump] at h
    | bool b => cases a <;> cases b <;> simp_all [dump]
    | int n => exact (decimal_append_ne_dump (by simp) n s r h.symm).elim
    | str text => cases a <;> simp [dump] at h
    | list items => cases a <;> cases items <;> simp [dump] at h
  | .int m, w, r, s, hr, hs, h => by
    by_cases hw : ∃ n, w = .int n
    · obtain ⟨n,rfl⟩ := hw
      obtain ⟨rfl,rfl⟩ := decimal_append_inj hr hs h
      exact ⟨rfl,rfl⟩
    · exact absurd h (decimal_append_ne_dump (not_exists.mp hw) m r s)
  | .str a, w, r, s, _, _, h => by
    cases w with
    | null => simp [dump] at h
    | bool b => cases b <;> simp [dump] at h
    | int n => exact (decimal_append_ne_dump (by simp) n s r h.symm).elim
    | str b =>
      obtain ⟨htext,hrest⟩ := quoted_inj (List.cons.inj h).2
      exact ⟨congrArg Value.str (String.toList_injective htext),hrest⟩
    | list items => cases items <;> simp [dump] at h
  | .list [], w, r, s, _, _, h => by
    cases w with
    | null => simp [dump] at h
    | bool b => cases b <;> simp [dump] at h
    | int n => exact (decimal_append_ne_dump (by simp) n s r h.symm).elim
    | str text => simp [dump] at h
    | list items =>
      cases items with
      | nil => exact ⟨rfl,(List.cons.inj (List.cons.inj h).2).2⟩
      | cons item items => exact absurd (List.cons.inj h).2.symm (dump_ne_bracket item _ r)
  | .list (a :: as), w, r, s, _, _, h => by
    cases w with
    | null => simp [dump] at h
    | bool b => cases b <;> simp [dump] at h
    | int n => exact (decimal_append_ne_dump (by simp) n s r h.symm).elim
    | str text => simp [dump] at h
    | list items =>
      cases items with
      | nil => exact absurd (List.cons.inj h).2 (dump_ne_bracket a _ s)
      | cons b bs =>
        obtain ⟨rfl,hrest⟩ := dump_inj a b _ _ (closed_dumpItems as r) (closed_dumpItems bs s)
          (List.cons.inj h).2
        obtain ⟨rfl,hrs⟩ := dumpItems_inj as bs r s hrest
        exact ⟨rfl,hrs⟩
termination_by structural v => v

theorem dumpItems_inj : ∀ (vs ws : List Value) (r s : List Char),
    dumpItems vs r = dumpItems ws s → vs = ws ∧ r = s
  | [], ws, r, s, h => by
    cases ws with
    | nil => exact ⟨rfl,(List.cons.inj h).2⟩
    | cons w ws => simp [dumpItems] at h
  | v :: vs, ws, r, s, h => by
    cases ws with
    | nil => simp [dumpItems] at h
    | cons w ws =>
      obtain ⟨hv,hrest⟩ := dump_inj v w _ _ (closed_dumpItems vs r) (closed_dumpItems ws s)
        (List.cons.inj h).2
      obtain ⟨hvs,hrs⟩ := dumpItems_inj vs ws r s hrest
      exact ⟨by rw [hv,hvs],hrs⟩
termination_by structural vs => vs

end

theorem dumps_injective : Function.Injective dumps := by
  intro v w h
  have hchars : dump v [] = dump w [] := String.ofList_injective h
  exact (dump_inj v w [] [] (by rintro _ ⟨⟩) (by rintro _ ⟨⟩) hchars).1

end PriceOracle.Lib.JsonDump
