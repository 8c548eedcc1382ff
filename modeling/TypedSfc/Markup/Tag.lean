/-!
# Kinds of tag

Which tags are native, which have no content, and whose content is no markup.
-/

namespace TypedSfc

namespace Markup

namespace Tag

/-- The elements of documents. -/
def html : List String :=
  ["html", "body", "base", "head", "link", "meta", "style", "title", "address", "article", "aside", "footer", "header", "hgroup",
    "h1", "h2", "h3", "h4", "h5", "h6", "nav", "section", "div", "dd", "dl", "dt", "figcaption", "figure", "picture", "hr", "img",
    "li", "main", "ol", "p", "pre", "ul", "a", "b", "abbr", "bdi", "bdo", "br", "cite", "code", "data", "dfn", "em", "i", "kbd",
    "mark", "q", "rp", "rt", "ruby", "s", "samp", "small", "span", "strong", "sub", "sup", "time", "u", "var", "wbr", "area",
    "audio", "map", "track", "video", "embed", "object", "param", "source", "canvas", "script", "noscript", "del", "ins",
    "caption", "col", "colgroup", "table", "thead", "tbody", "td", "th", "tr", "button", "datalist", "fieldset", "form", "input",
    "label", "legend", "meter", "optgroup", "option", "output", "progress", "select", "textarea", "details", "dialog", "menu",
    "summary", "template", "blockquote", "iframe", "tfoot", "search"]

/-- The elements of vector graphics. -/
def svg : List String :=
  ["svg", "animate", "animateMotion", "animateTransform", "circle", "clipPath", "color-profile", "defs", "desc", "discard",
    "ellipse", "feBlend", "feColorMatrix", "feComponentTransfer", "feComposite", "feConvolveMatrix", "feDiffuseLighting",
    "feDisplacementMap", "feDistantLight", "feDropShadow", "feFlood", "feFuncA", "feFuncB", "feFuncG", "feFuncR",
    "feGaussianBlur", "feImage", "feMerge", "feMergeNode", "feMorphology", "feOffset", "fePointLight", "feSpecularLighting",
    "feSpotLight", "feTile", "feTurbulence", "filter", "foreignObject", "g", "hatch", "hatchpath", "image", "line",
    "linearGradient", "marker", "mask", "mesh", "meshgradient", "meshpatch", "meshrow", "metadata", "mpath", "path", "pattern",
    "polygon", "polyline", "radialGradient", "rect", "set", "solidcolor", "stop", "switch", "symbol", "text", "textPath",
    "tspan", "unknown", "use", "view"]

/-- The elements of formulas. -/
def math : List String :=
  ["annotation", "annotation-xml", "maction", "maligngroup", "malignmark", "math", "menclose", "merror", "mfenced", "mfrac",
    "mfraction", "mglyph", "mi", "mlabeledtr", "mlongdiv", "mmultiscripts", "mn", "mo", "mover", "mpadded", "mphantom",
    "mprescripts", "mroot", "mrow", "ms", "mscarries", "mscarry", "msgroup", "msline", "mspace", "msqrt", "msrow", "mstack",
    "mstyle", "msub", "msubsup", "msup", "mtable", "mtd", "mtext", "mtr", "munder", "munderover", "none", "semantics"]

/-- The elements that have neither children nor a closing tag. -/
def void : List String :=
  ["area", "base", "br", "col", "embed", "hr", "img", "input", "link", "meta", "param", "source", "track", "wbr"]

/-- The elements whose content is no markup. -/
def raw : List String := ["script", "style"]

/-- The directives that make a `<template>` structural. -/
def structural : List String := ["if", "else", "else-if", "for", "slot"]

/-- Whether a tag is native, as written. -/
def isNative (tag : String) : Bool := html.contains tag || svg.contains tag || math.contains tag

/-- Whether two tags are one, by the rule of documents: the case of ASCII letters has no meaning. -/
def same (a b : String) : Bool :=
  a.toList.map Char.toLower == b.toList.map Char.toLower

/-- Whether a tag has no content. -/
def isVoid (tag : String) : Bool := void.any (same tag)

/-- Whether the content of a tag is no markup. -/
def isRaw (tag : String) : Bool := raw.any (same tag)

/-- Whether a tag names a component; `is` is the value of its `is` attribute. -/
def isComponent (tag : String) (is : Option String) : Bool :=
  tag == "component" || (tag.toList.head?.any Char.isUpper) || !isNative tag ||
    is.any fun v => "vue:".toList.isPrefixOf v.toList

end Tag

end Markup

end TypedSfc
