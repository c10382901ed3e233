import Shakedown.Pattern.Search

/-!
# License comments

A comment that opens with two stars and holds `@license` is taken out with the line break behind it.
-/

namespace Shakedown
namespace License

/-- What a comment may hold: no star, or stars before something else than a star or a slash. -/
def content : Pattern :=
  .many (.choice
    (.one (· != '*'))
    (.seq (.some (.one (· == '*'))) (.one fun char => char != '*' && char != '/')))

/-- A license comment with the line break behind it. -/
def pattern : Pattern :=
  .all
    [ .literal "/**".toList
    , content
    , .many (.one (· == '*'))
    , .literal "@license".toList
    , content
    , .some (.one (· == '*'))
    , .one (· == '/')
    , .optional .lineBreak ]

/-- A text without its license comments. -/
def strip (text : List Char) : List Char :=
  pattern.erase text

end License
end Shakedown
