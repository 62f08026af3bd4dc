import RequireInjection.CallPattern

/-!
Wrapping of loading calls. A call that the pattern finds is replaced by a look-up of its argument
among the injections, with the call itself to fall back to; all other text stays as it is. The
generated module is a function of the injections around the wrapped text.
-/
namespace RequireInjection

def lookup (key fallback : Text) : Text :=
  ("(injections[" : Text) ++ key ++ ("] || " : Text) ++ fallback ++ [')']

def Piece.wrapped : Piece → Text
  | .plain c => [c]
  | .call a => lookup a (Piece.call a).text

def wrap (p : CallPattern) (source : Text) : Text := (p.pieces source).flatMap Piece.wrapped

def header : List Text :=
  ["module.exports = function inject(injections) \x7b", "var module = \x7bexports: \x7b\x7d\x7d;",
    "var exports = module.exports;"].map String.toList

def footer : List Text := ["return module.exports;", "\x7d"].map String.toList

def injectableModule (wrapped : Text) : Text := Text.join ['\n'] (header ++ [wrapped] ++ footer)

end RequireInjection
