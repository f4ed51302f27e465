import FeatureFlags.Context
import FeatureFlags.Dict.Lemmas

/-!
# Attributes by path

What is found in a context after a value was put into it: `Context.insert_lookup_laws`.

Two paths diverge if neither begins with the other (`Json.Diverge`). Then a value that is put at one
of them is not seen at the other, also where what lay on the way was no object and has become one:
before, nothing was found behind it, and after, only the value that was put.

Looking up and putting go the same way. One step of it leads from a tree to what lies under a name
(`Json.child`), and there is nothing there, which is `null`, in a tree that is no object. So there
is one equation for a step of each (`Json.lookup_cons`, `Json.put_cons`), and every law is an
induction on the path with one of the two laws for the first part (`Json.child_put_self`,
`Json.child_put_of_ne`).
-/

namespace FeatureFlags

namespace Json

variable {j v w : Json} {p q : List String}

/-! ## One step -/

/-- What lies under a name, or `null`. -/
def child (part : String) (j : Json) : Json := (Entries.get? part j.fieldsOrNone).getD null

theorem lookup_null (path : List String) : lookup path null = null := by
  cases path <;> rfl

theorem lookup_cons (part : String) (rest : List String) (j : Json) :
    lookup (part :: rest) j = lookup rest (child part j) := by
  cases j with
  | object fields =>
    rw [lookup, child, fieldsOrNone]
    cases Entries.get? part fields with
    | some inner => rfl
    | none => exact (lookup_null rest).symm
  | null | bool _ | number _ | string _ | array _ | unreadable => exact (lookup_null rest).symm

/-- Where nothing lies, a value is put as into an empty object. -/
theorem put_cons (value : Json) (part : String) (rest : List String) (j : Json) :
    put value (part :: rest) j =
      object (Entries.insert part (put value rest (child part j)) j.fieldsOrNone) := by
  rw [put, child]
  cases Entries.get? part j.fieldsOrNone with
  | some inner => rfl
  | none => cases rest <;> rfl

theorem child_put_self (value : Json) (part : String) (rest : List String) (j : Json) :
    child part (put value (part :: rest) j) = put value rest (child part j) := by
  rw [put_cons, child, fieldsOrNone, Entries.get?_insert_self, Option.getD_some]

/-- What was no object had nothing under the other name either. -/
theorem child_put_of_ne {part other : String} (h : other ≠ part) (value : Json)
    (rest : List String) (j : Json) : child other (put value (part :: rest) j) = child other j := by
  rw [put_cons, child, fieldsOrNone, Entries.get?_insert_of_ne h, child]

theorem normal_child (h : j.Normal) (part : String) : (child part j).Normal := by
  unfold child
  cases hfound : Entries.get? part j.fieldsOrNone with
  | none => rfl
  | some inner =>
    exact normal_of_get? ((normal_object_iff _).mp (normal_object_fieldsOrNone h)).2 hfound

/-- The fields of a value, by name. -/
def fieldDict (h : j.Normal) : Dict Json :=
  ⟨j.fieldsOrNone, ((normal_object_iff _).mp (normal_object_fieldsOrNone h)).1⟩

/-! ## Paths -/

/-- A path is gone step by step. -/
theorem lookup_append (p rest : List String) (j : Json) :
    lookup (p ++ rest) j = lookup rest (lookup p j) := by
  induction p generalizing j with
  | nil => rfl
  | cons part p ih => rw [List.cons_append, lookup_cons, lookup_cons, ih]

/-- A value that was put at a path is found there. -/
theorem lookup_put_self (value : Json) (p : List String) (j : Json) :
    lookup p (put value p j) = value := by
  induction p generalizing j with
  | nil => rfl
  | cons part p ih => rw [lookup_cons, child_put_self, ih]

/-- Neither of the paths begins with the other. -/
def Diverge (p q : List String) : Prop := ¬ p <+: q ∧ ¬ q <+: p

/-- Paths that diverge do so at the first part, or behind it. -/
theorem Diverge.exists_cons (h : Diverge p q) :
    ∃ part p' other q', p = part :: p' ∧ q = other :: q' ∧
      (other ≠ part ∨ other = part ∧ Diverge p' q') := by
  obtain ⟨hpq, hqp⟩ := h
  cases p with
  | nil => exact absurd (List.nil_prefix) hpq
  | cons part p =>
    cases q with
    | nil => exact absurd (List.nil_prefix) hqp
    | cons other q =>
      refine ⟨part, p, other, q, rfl, rfl, ?_⟩
      by_cases hpart : other = part
      · subst hpart
        rw [List.cons_prefix_cons] at hpq hqp
        exact .inr ⟨rfl, fun h => hpq ⟨rfl, h⟩, fun h => hqp ⟨rfl, h⟩⟩
      · exact .inl hpart

/-- Where paths diverge, a value that is put at one of them is not seen at the other. -/
theorem lookup_put_of_diverge (h : Diverge p q) (value j : Json) :
    lookup q (put value p j) = lookup q j := by
  induction p generalizing q j with
  | nil => exact absurd List.nil_prefix h.1
  | cons part p ih =>
    obtain ⟨_, _, other, q, ⟨⟩, rfl, hother | ⟨rfl, hrest⟩⟩ := h.exists_cons
    · rw [lookup_cons, child_put_of_ne hother, lookup_cons]
    · rw [lookup_cons, child_put_self, ih hrest, lookup_cons]

/-- Of two values put at one path the later one stays, and nothing is left of the other. -/
theorem put_put_self (v w : Json) (p : List String) (hj : j.Normal) :
    put w p (put v p j) = put w p j := by
  induction p generalizing j with
  | nil => rfl
  | cons part p ih =>
    have hfields := (fieldDict hj).insert_insert_self part (put v p (child part j))
      (put w p (child part j))
    rw [put_cons w part p (put v (part :: p) j), child_put_self, ih (normal_child hj part), put_cons,
      put_cons, fieldsOrNone]
    exact congrArg (fun d => object d.entries) hfields

/-- At paths that diverge values are put in either order. -/
theorem put_comm (h : Diverge p q) (v w : Json) (hj : j.Normal) :
    put w q (put v p j) = put v p (put w q j) := by
  induction p generalizing q j with
  | nil => exact absurd List.nil_prefix h.1
  | cons part p ih =>
    obtain ⟨_, _, other, q, ⟨⟩, rfl, hother | ⟨rfl, hrest⟩⟩ := h.exists_cons
    · -- two fields of one object
      have hfields := (fieldDict hj).insert_comm hother.symm (put v p (child part j))
        (put w q (child other j))
      rw [put_cons w other q (put v (part :: p) j), child_put_of_ne hother,
        put_cons v part p (put w (other :: q) j), child_put_of_ne hother.symm, put_cons, put_cons,
        fieldsOrNone, fieldsOrNone]
      exact congrArg (fun d => object d.entries) hfields
    · -- one field, and both values below it
      have hfields := (fieldDict hj).insert_insert_self other (put v p (child other j))
        (put v p (put w q (child other j)))
      have hfields' := (fieldDict hj).insert_insert_self other (put w q (child other j))
        (put v p (put w q (child other j)))
      rw [put_cons w other q (put v (other :: p) j), child_put_self, ih hrest (normal_child hj other),
        put_cons v other p (put w (other :: q) j), child_put_self, put_cons, put_cons, fieldsOrNone,
        fieldsOrNone]
      exact congrArg (fun d => object d.entries) (hfields.trans hfields'.symm)

theorem pathParts_ne_nil (path : String) : pathParts path ≠ [] := by
  rw [pathParts, ne_eq, List.map_eq_nil_iff]
  exact Text.split_ne_nil '.' path.toList

end Json

/-! ## Contexts -/

namespace Context

open Json

/-- A context is nothing but its attributes. -/
theorem toJson_injective {c c' : Context} (h : c.toJson = c'.toJson) : c = c' := by
  cases c
  cases c'
  cases h
  rfl

theorem toJson_insert (c : Context) (p : String) {v : Json} (hv : v.Normal) :
    (c.insert p v hv).toJson = put v (pathParts p) c.toJson := by
  obtain ⟨fields, hfields⟩ := put_object v (pathParts_ne_nil p) c.toJson
  show object (put v (pathParts p) c.toJson).fieldsOrNone = _
  rw [hfields, fieldsOrNone]

theorem get_insert (c : Context) (p q : String) {v : Json} (hv : v.Normal) :
    (c.insert p v hv).get q = lookup (pathParts q) (put v (pathParts p) c.toJson) := by
  rw [get, toJson_insert]

/-- **What is found in a context after a value was put into it.** The value is found at its path. At
a path that goes on from there, what is found is what lies inside the value at the rest of the path.
At a path that diverges nothing has changed. A value put at the same path takes the place of the
first one, and values at paths that diverge are put in either order. -/
theorem insert_lookup_laws (c : Context) (p : String) {v w : Json} (hv : v.Normal)
    (hw : w.Normal) :
    (c.insert p v hv).get p = v ∧
    (∀ q rest, pathParts q = pathParts p ++ rest → (c.insert p v hv).get q = lookup rest v) ∧
    (∀ q, Diverge (pathParts p) (pathParts q) → (c.insert p v hv).get q = c.get q) ∧
    (c.insert p v hv).insert p w hw = c.insert p w hw ∧
    (∀ q, Diverge (pathParts p) (pathParts q) →
      (c.insert p v hv).insert q w hw = (c.insert q w hw).insert p v hv) := by
  refine ⟨?_, ?_, ?_, ?_, ?_⟩
  · rw [get_insert, lookup_put_self]
  · intro q rest hq
    rw [get_insert, hq, lookup_append, lookup_put_self]
  · intro q hdiverge
    rw [get_insert, lookup_put_of_diverge hdiverge, get]
  · refine toJson_injective ?_
    rw [toJson_insert, toJson_insert, toJson_insert]
    exact put_put_self v w (pathParts p) c.normal
  · intro q hdiverge
    refine toJson_injective ?_
    rw [toJson_insert, toJson_insert, toJson_insert, toJson_insert]
    exact put_comm hdiverge v w c.normal

/-- A context in which the user is given by name. -/
def signedIn : Context := ⟨[("tags", .array [.string "beta"]), ("user", .string "ada")], by decide⟩

/-- The first and the last name of a user. -/
def fullName : Json := .object [("first", .string "Ada"), ("last", .string "Lovelace")]

/-- The name of the user was no object and has become one; nothing is found beside what was put. -/
theorem named_user_laws :
    fullName.Normal ∧
      pathParts "user.name.first" = pathParts "user.name" ++ ["first"] ∧
      Diverge (pathParts "user.name") (pathParts "user.age") ∧
      (signedIn.insert "user.name" fullName rfl).get "user.name" = fullName ∧
      (signedIn.insert "user.name" fullName rfl).get "user.name.first" = .string "Ada" ∧
      (signedIn.insert "user.name" fullName rfl).get "user.age" = signedIn.get "user.age" ∧
      (signedIn.insert "user.name" fullName rfl).insert "user.name" .null rfl =
        signedIn.insert "user.name" .null rfl ∧
      (signedIn.insert "user.name" fullName rfl).insert "user.age" .null rfl =
        (signedIn.insert "user.age" .null rfl).insert "user.name" fullName rfl := by
  have hextends : pathParts "user.name.first" = pathParts "user.name" ++ ["first"] := by
    decide +kernel
  have hdiverge : Diverge (pathParts "user.name") (pathParts "user.age") := by
    unfold Diverge
    decide +kernel
  obtain ⟨hself, hbelow, hbeside, hagain, horder⟩ :=
    insert_lookup_laws signedIn "user.name" (v := fullName) (w := .null) rfl rfl
  exact ⟨rfl, hextends, hdiverge, hself, hbelow _ _ hextends, hbeside _ hdiverge, hagain,
    horder _ hdiverge⟩

end Context

end FeatureFlags
