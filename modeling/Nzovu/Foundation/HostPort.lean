import Mathlib.Data.List.Basic

/-!
# Network Addresses

Addresses of the form `host:port`, where a host with colons stands in brackets, as
`net.JoinHostPort` writes and `net.SplitHostPort` reads them.

- Section 1: cutting a text at a character.
- Section 2: hosts and ports.
-/

namespace Nzovu.Foundation.HostPort

/-! ## Section 1: Cutting a text -/

/-- The text before and after the first `c`. -/
def cutFirst (c : Char) : List Char → Option (List Char × List Char)
  | [] => none
  | x :: rest =>
    if x = c then some ([], rest)
    else (cutFirst c rest).map fun parts => (x :: parts.1, parts.2)

/-- The text before and after the last `c`. -/
def cutLast (c : Char) : List Char → Option (List Char × List Char)
  | [] => none
  | x :: rest =>
    match cutLast c rest with
    | some parts => some (x :: parts.1, parts.2)
    | none => if x = c then some ([], rest) else none

variable {c : Char} {before after : List Char}

theorem cutLast_of_notMem {text : List Char} (h : c ∉ text) : cutLast c text = none := by
  induction text with
  | nil => rfl
  | cons x rest ih =>
    have hx : x ≠ c := fun hsame => h (hsame ▸ List.mem_cons_self)
    have hrest : cutLast c rest = none := ih fun hmem => h (List.mem_cons_of_mem _ hmem)
    simp only [cutLast, hrest, if_neg hx]

/-- The cut is at the only `c` after which there is no other. -/
theorem cutLast_append (h : c ∉ after) :
    cutLast c (before ++ c :: after) = some (before, after) := by
  induction before with
  | nil => simp only [List.nil_append, cutLast, cutLast_of_notMem h, if_true]
  | cons x rest ih => simp only [List.cons_append, cutLast, ih]

theorem cutFirst_append (h : c ∉ before) :
    cutFirst c (before ++ c :: after) = some (before, after) := by
  induction before with
  | nil => simp only [List.nil_append, cutFirst, if_true]
  | cons x rest ih =>
    have hx : x ≠ c := fun hsame => h (hsame ▸ List.mem_cons_self)
    have hrest := ih fun hmem => h (List.mem_cons_of_mem _ hmem)
    simp only [List.cons_append, cutFirst, if_neg hx, hrest, Option.map_some]

/-! ## Section 2: Hosts and ports -/

/-- `net.JoinHostPort`. -/
def joinHostPort (host port : List Char) : List Char :=
  if ':' ∈ host then '[' :: host ++ ']' :: ':' :: port else host ++ ':' :: port

/-- `net.SplitHostPort`. -/
def splitHostPort (hostport : List Char) : Option (List Char × List Char) :=
  -- the port starts after the last colon
  match cutLast ':' hostport with
  | none => none
  | some (address, port) =>
    if hostport.head? = some '[' then
      match cutFirst ']' hostport.tail with
      | none => none
      | some (host, afterBracket) =>
        -- the first closing bracket stands just before the last colon
        if address = '[' :: host ++ [']'] then
          if '[' ∈ hostport.tail ∨ ']' ∈ afterBracket then none else some (host, port)
        else none
    else if ':' ∈ address ∨ '[' ∈ hostport ∨ ']' ∈ hostport then none
    else some (address, port)

/-- The host of an address, or all of it when it has none. -/
def hostOf (address : List Char) : List Char :=
  match splitHostPort address with
  | some (host, _) => if host = [] then address else host
  | none => address

/-- A part of an address that no bracket can be mistaken in. -/
def Plain (text : List Char) : Prop := '[' ∉ text ∧ ']' ∉ text

/-- **Round trip**: an address that was joined is split into its parts. -/
theorem splitHostPort_joinHostPort {host port : List Char} (hhost : Plain host)
    (hport : Plain port) (hcolon : ':' ∉ port) :
    splitHostPort (joinHostPort host port) = some (host, port) := by
  unfold joinHostPort
  by_cases hinside : ':' ∈ host
  · rw [if_pos hinside]
    -- between brackets
    have hlast : cutLast ':' ('[' :: host ++ ']' :: ':' :: port) =
        some ('[' :: host ++ [']'], port) := by
      rw [show '[' :: host ++ ']' :: ':' :: port = ('[' :: host ++ [']']) ++ ':' :: port by simp]
      exact cutLast_append hcolon
    have hfirst : cutFirst ']' (host ++ ']' :: ':' :: port) = some (host, ':' :: port) :=
      cutFirst_append hhost.2
    have hopen : ¬ ('[' ∈ host ++ ']' :: ':' :: port ∨ ']' ∈ ':' :: port) := by
      simp [hhost.1, hport.1, hport.2]
    unfold splitHostPort
    rw [hlast]
    simp only [List.cons_append, List.head?_cons, List.tail_cons, hfirst, if_true]
    exact if_neg hopen
  · rw [if_neg hinside]
    have hlast : cutLast ':' (host ++ ':' :: port) = some (host, port) := cutLast_append hcolon
    have hplain : ¬ (':' ∈ host ∨ '[' ∈ host ++ ':' :: port ∨ ']' ∈ host ++ ':' :: port) := by
      simp [hinside, hhost.1, hhost.2, hport.1, hport.2]
    have hhead : (host ++ ':' :: port).head? ≠ some '[' := fun hsome =>
      hplain (.inr (.inl (List.mem_of_head? hsome)))
    simp only [splitHostPort, hlast, if_neg hhead, if_neg hplain]

/-- The host of an address that was joined. -/
theorem hostOf_joinHostPort {host port : List Char} (hhost : Plain host) (hport : Plain port)
    (hcolon : ':' ∉ port) (hne : host ≠ []) : hostOf (joinHostPort host port) = host := by
  simp only [hostOf, splitHostPort_joinHostPort hhost hport hcolon, if_neg hne]

end Nzovu.Foundation.HostPort
