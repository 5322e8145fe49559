import SiteCompiler.Json.Printer
import SiteCompiler.Route
import SiteCompiler.Text.Markup

namespace SiteCompiler.Shell

structure Page where
  location : Route.Location
  pageId : String
  pageScript : String
  appScript : Option String
  staticProps : Option Json

def scriptElement (source : String) : String :=
  "<script type=\"module\" src=\"" ++ Text.Markup.escape source ++ "\"></script>\n"

/-- The page's data as JSON; a slash after `<` is escaped, so that no element can end in it. -/
def dataText (props : Option Json) : String :=
  Text.replace "</" "<\\/" ((props.map Json.compact).getD "null")

def page (p : Page) : String :=
  "<!DOCTYPE html>\n<html lang=\"" ++ Text.Markup.escape p.location.locale
    ++ "\">\n<head>\n<meta charset=\"utf-8\">\n</head>\n<body>\n<main id=\"__post\"></main>\n"
    ++ "<script id=\"__post-data\" type=\"application/json\">" ++ dataText p.staticProps
    ++ "</script>\n" ++ (p.appScript.map scriptElement).getD "" ++ scriptElement p.pageScript
    ++ "</body>\n</html>\n"

def plainStart (location : Route.Location) (heading : String) : String :=
  "<!DOCTYPE html>\n<html lang=\"" ++ Text.Markup.escape location.locale
    ++ "\">\n<body>\n<h1>" ++ heading ++ "</h1>\n"

def notFound (location : Route.Location) : String :=
  plainStart location "404 - Page not found" ++ "<p>" ++ Text.Markup.escape location.pathname
    ++ "</p>\n</body>\n</html>\n"

def failure (location : Route.Location) (message : String) : String :=
  plainStart location "500 - Internal Server Error" ++ "<pre>" ++ Text.Markup.escape message
    ++ "</pre>\n</body>\n</html>\n"

end SiteCompiler.Shell
